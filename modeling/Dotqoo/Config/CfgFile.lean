import Mathlib.Data.List.Basic
import Dotqoo.Config.StringMap
import Dotqoo.Lib.Lines

/-!
# The configuration file

`read_config_file` of `cfgfile.c`. A file is the list of its characters; a buffer
is read as a C string, so what `fgets` puts behind a NUL is not seen. The text
that goes to `stderr` is part of the result.

The line buffer has `MAX_CONFIG_LINE` characters. A continuation is read over the
backslash, at `line + strlen(line) - 1`, with `MAX_CONFIG_LINE - strlen(line)` as
the size: one less than the room that is left there.
-/

namespace Dotqoo.Config

open Dotqoo.Lib

/-! ## The C library -/

/-- What string functions see of an array of characters. -/
def cString (chars : List Char) : CString := chars.takeWhile (fun c => c ≠ '\x00')

/-- `fgets`: the string it leaves in the buffer and the text behind it, or `NULL`
at the end of the file. With size 1 there is room for the NUL only, and nothing is
read. -/
def fgets (size : Nat) (text : List Char) : Option (CString × List Char) :=
  if size = 1 then some ([], text)
  else if text = [] then none
  else some (cString (lineUpTo '\n' (size - 1) text).1, (lineUpTo '\n' (size - 1) text).2)

theorem length_fgets {size : Nat} {text left : List Char} {s : CString}
    (h : fgets size text = some (s, left)) : s.length + left.length ≤ text.length := by
  unfold fgets at h
  split at h
  · cases h
    simp
  · split at h
    · cases h
    · cases h
      have hlen := length_lineUpTo '\n' (size - 1) text
      have hcut : (cString (lineUpTo '\n' (size - 1) text).1).length
          ≤ (lineUpTo '\n' (size - 1) text).1.length := (List.takeWhile_prefix _).length_le
      omega

/-- A line that fits with its newline. -/
theorem fgets_line (size : Nat) {line : List Char} (rest : List Char) (hline : '\n' ∉ line)
    (hsize : line.length + 1 < size) :
    fgets size (line ++ '\n' :: rest) = some (cString (line ++ ['\n']), rest) := by
  unfold fgets
  rw [if_neg (by omega), if_neg (by simp), lineUpTo_line rest hline (by omega)]

/-- A line of which the buffer takes the first characters and no more. -/
theorem fgets_full (size : Nat) {line : List Char} (rest : List Char) (hline : '\n' ∉ line)
    (hsize : line.length + 1 = size) :
    fgets size (line ++ rest) = some (cString line, rest) := by
  unfold fgets
  rw [← hsize]
  split
  next hone =>
    rw [List.length_eq_zero_iff.mp (by omega : line.length = 0)]
    rfl
  next hne =>
    rw [if_neg (by intro h; simp at h; simp [h] at hne), Nat.add_sub_cancel,
      lineUpTo_full rest hline]

/-- The last line of a file, without a newline. -/
theorem fgets_end (size : Nat) {line : List Char} (hline : '\n' ∉ line) (hne : line ≠ [])
    (hsize : line.length < size) : fgets size line = some (cString line, []) := by
  have hpos := List.length_pos_iff.mpr hne
  unfold fgets
  rw [if_neg (by omega), if_neg hne, lineUpTo_end hline (by omega)]

/-! ## Lines -/

/-- `MAX_CONFIG_LINE`. -/
def maxConfigLine : Nat := 2048

/-- The directives of `config_directives`. -/
def configDirectives : List CString :=
  ["interface", "dns-resolution", "port-resolution", "filter-code", "show-bars", "promiscuous",
    "hide-source", "hide-destination", "use-bytes", "sort", "line-display", "show-totals",
    "log-scale", "max-bandwidth", "net-filter", "net-filter6", "link-local", "port-display",
    "timed-output", "no-curses", "num-lines"].map String.toList

/-- `is_cfgdirective_valid`. -/
def isCfgdirectiveValid (s : CString) : Bool :=
  configDirectives.any (fun directive => strcmp s directive = .eq)

theorem isCfgdirectiveValid_iff (s : CString) :
    isCfgdirectiveValid s = true ↔ s ∈ configDirectives := by
  simp only [isCfgdirectiveValid, List.any_eq_true, decide_eq_true_eq]
  constructor
  · intro ⟨d, hd, heq⟩
    rw [eq_of_strcmp heq]
    exact hd
  · intro hs
    exact ⟨s, hs, strcmp_self s⟩

/-- The characters of `" \t"`. -/
def isBlank (c : Char) : Bool := c = ' ' || c = '\t'

/-- The loop `r > line && *r == '\n'`: the first character stays. -/
def stripNewlines (line : CString) : CString := trimRight (fun c => c = '\n') line

theorem length_stripNewlines_le (line : CString) :
    (stripNewlines line).length ≤ line.length := length_trimRight_le _ line

/-- A continuation takes a backslash away, and adds no more than it reads. -/
theorem continuation_lt {size : Nat} {line more : CString} {text left : List Char}
    (hlast : line.getLast? = some '\\') (hread : fgets size text = some (more, left)) :
    (stripNewlines (line.dropLast ++ more)).length + left.length < line.length + text.length := by
  have hne : line ≠ [] := fun h => by simp [h] at hlast
  have hpos := List.length_pos_iff.mpr hne
  have hlen := length_fgets hread
  have hstrip := length_stripNewlines_le (line.dropLast ++ more)
  rw [List.length_append, List.length_dropLast] at hstrip
  omega

/-- The loop over continuation lines: `line` afterwards, and the text behind it. -/
def continueLine (line : CString) (text : List Char) : CString × List Char :=
  if line.getLast? = some '\\' then
    match _ : fgets (maxConfigLine - line.length) text with
    | none => (line, text)
    | some (more, left) => continueLine (stripNewlines (line.dropLast ++ more)) left
  else (line, text)
termination_by line.length + text.length
decreasing_by exact continuation_lt ‹_› ‹_›

theorem length_continueLine (line : CString) (text : List Char) :
    (continueLine line text).2.length ≤ text.length := by
  fun_induction continueLine line text with
  | case1 => exact Nat.le_refl _
  | case2 line text hlast more left hread ih =>
    have hlen := length_fgets hread
    omega
  | case3 => exact Nat.le_refl _

theorem continueLine_stop {line : CString} (h : '\\' ∉ line) (text : List Char) :
    continueLine line text = (line, text) := by
  rw [continueLine, if_neg]
  exact fun hlast => h (List.mem_of_getLast? hlast)

/-- The continuation is written over the backslash. -/
theorem continueLine_read {line more : CString} {text left : List Char}
    (h : fgets (maxConfigLine - (line.length + 1)) text = some (more, left)) :
    continueLine (line ++ ['\\']) text = continueLine (stripNewlines (line ++ more)) left := by
  have hlen : (line ++ ['\\']).length = line.length + 1 := List.length_append
  rw [continueLine, if_pos (List.getLast?_concat ..)]
  split
  next hnone =>
    rw [hlen, h] at hnone
    cases hnone
  next hsome =>
    rw [hlen, h] at hsome
    cases hsome
    rw [List.dropLast_concat]

/-- One pass of the reading loop, up to the complete line. -/
def readLine (text : List Char) : Option (CString × List Char) :=
  (fgets maxConfigLine text).map fun read => continueLine (stripNewlines read.1) read.2

theorem readLine_lt {text left : List Char} {line : CString}
    (h : readLine text = some (line, left)) : left.length < text.length := by
  obtain ⟨⟨first, behind⟩, hread, heq⟩ := Option.map_eq_some_iff.mp h
  unfold fgets at hread
  rw [if_neg (by decide)] at hread
  split at hread
  next => cases hread
  next htext =>
    cases hread
    have hlt := length_lineUpTo_lt '\n' (show 0 < maxConfigLine - 1 by decide) htext
    have hcont := length_continueLine
      (stripNewlines (cString (lineUpTo '\n' (maxConfigLine - 1) text).1))
      (lineUpTo '\n' (maxConfigLine - 1) text).2
    rw [show continueLine _ _ = (line, left) from heq] at hcont
    exact Nat.lt_of_le_of_lt hcont hlt

/-! ## What a line says -/

/-- The cut at `strpbrk(line, "#\n")`. -/
def cutComment (line : CString) : CString := line.takeWhile (fun c => c ≠ '#' && c ≠ '\n')

/-- `strspn(value, " \t")`, and the blanks at the end. -/
def trimValue (value : CString) : CString := trimRight isBlank (value.dropWhile isBlank)

/-- The first word of a string: up to a blank or a colon. -/
def firstWord (s : CString) : CString :=
  (s.dropWhile isBlank).takeWhile (fun c => !isBlank c && c ≠ ':')

/-- The key and the value of a line, if it has a colon and a word at the start. -/
def splitLine (line : CString) : Option (CString × CString) :=
  match (cutComment line).dropWhile (fun c => c ≠ ':') with
  | [] => none
  | _ :: value =>
    if firstWord (cutComment line) = [] then none
    else some (firstWord (cutComment line), trimValue value)

/-- The state of the reading loop: the configuration, and the lines on `stderr`. -/
structure Reading where
  config : StringMap
  stderr : List CString

/-- The text of a warning: file, line, what is wrong with which key. -/
def warning (f : CString) (i : Nat) (what : String) (key : CString) : CString :=
  f ++ ":".toList ++ (Nat.repr i).toList ++ ": warning: ".toList ++ what.toList
    ++ " directive \"".toList ++ key ++ "\"".toList

/-- What is done with a key and its value. -/
def storeItem (f : CString) (i : Nat) (r : Reading) (key value : CString) : Reading :=
  if !isCfgdirectiveValid key then
    { r with stderr := r.stderr ++ [warning f i "unknown" key] }
  else
    { config := stringmapInsert r.config key value
      stderr := match stringmapFind r.config key with
        | some _ => r.stderr ++ [warning f i "repeated" key]
        | none => r.stderr }

/-- The body of the reading loop. -/
def storeLine (f : CString) (i : Nat) (r : Reading) (line : CString) : Reading :=
  match splitLine line with
  | none => r
  | some (key, value) => storeItem f i r key value

/-- The reading loop; `i` counts its passes. -/
def readLines (f : CString) (i : Nat) (text : List Char) (r : Reading) : Reading :=
  match hread : readLine text with
  | none => r
  | some (line, left) => readLines f (i + 1) left (storeLine f i r line)
termination_by text.length
decreasing_by exact readLine_lt hread

/-- `read_config_file`: the return value is 1 if the file can be opened, and its
error text goes to `stderr` only on request. -/
def readConfigFile (f : CString) (whinge : Bool) (file : Except CString (List Char))
    (config : StringMap) : Int × Reading :=
  match file with
  | .error strerror =>
    (0, { config, stderr := if whinge then [f ++ ": ".toList ++ strerror] else [] })
  | .ok text => (1, readLines f 1 text { config, stderr := [] })

/-! ## What a line does to the configuration -/

/-- The value a line has for a directive. -/
def lineValue (line : CString) (directive : CString) : Option CString :=
  (splitLine line).bind fun item => if item.1 = directive then some item.2 else none

/-- A line gives its directive the value if the directive has none. -/
theorem configGetString_storeLine (f : CString) (i : Nat) (r : Reading) (line : CString)
    {directive : CString} (hd : directive ∈ configDirectives) :
    configGetString (storeLine f i r line).config directive =
      (configGetString r.config directive).or (lineValue line directive) := by
  unfold storeLine lineValue
  cases splitLine line with
  | none => simp
  | some item =>
    obtain ⟨key, value⟩ := item
    show configGetString (storeItem f i r key value).config directive = _
    unfold storeItem
    by_cases hkey : key = directive
    · have hvalid := (isCfgdirectiveValid_iff directive).mpr hd
      rw [hkey, if_neg (by simp [hvalid]), configGetString_insert, if_pos rfl]
      cases configGetString r.config directive <;> simp
    · have hget : configGetString (stringmapInsert r.config key value) directive
          = configGetString r.config directive := by
        rw [configGetString_insert, if_neg (Ne.symm hkey)]
      split <;> simp [hget, hkey]

theorem readLines_of_readLine {f : CString} {i : Nat} {text left : List Char} {line : CString}
    {r : Reading} (h : readLine text = some (line, left)) :
    readLines f i text r = readLines f (i + 1) left (storeLine f i r line) := by
  rw [readLines]
  split
  next hnone => rw [hnone] at h; cases h
  next hsome =>
    rw [hsome] at h
    cases h
    rfl

theorem readLines_end {f : CString} {i : Nat} {r : Reading} : readLines f i [] r = r := by
  rw [readLines]
  rfl

end Dotqoo.Config
