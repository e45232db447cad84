import Mathlib.Data.List.Basic
import Dotqoo.Capture.Options
import Dotqoo.Config.StringMap
import Dotqoo.Lib.Dispatch

/-!
# The command line

`options_set_defaults` and `options_read_args`, as far as they write the options
the box reads later, the broker address, `port_list` and the configuration. The
words come from the argument file when there is one and from `argv` otherwise;
`getopt` splits them into options, and a `switch` handles each.

The switch can leave in three ways: with the new settings, through `exit`, or by
a step C gives no meaning to (`strtok` found no token and `atoi` reads `NULL`, a
list or the address buffer overflows). `getopt` follows the glibc function for an
option string that starts with `+`: the scan stops at the first word that is not
an option. What is printed on the way is left out.
-/

namespace Dotqoo.Config

open Dotqoo.Capture Dotqoo.Lib

/-! ## Numbers and tokens in a string -/

/-- The blanks `strtol` skips. -/
def isSpace (c : Char) : Bool :=
  c = ' ' || (9 ≤ c.toNat && c.toNat ≤ 13)

/-- The value of the decimal digits a string starts with. -/
def digitsValue (s : CString) : Nat :=
  (s.takeWhile Char.isDigit).foldl (fun n c => 10 * n + (c.toNat - '0'.toNat)) 0

/-- `atol`, that is `strtol(s, NULL, 10)`: clamped to a `long`. -/
def atol (s : CString) : Int :=
  let n : Int := match s.dropWhile isSpace with
    | '-' :: rest => - (digitsValue rest : Int)
    | '+' :: rest => digitsValue rest
    | rest => digitsValue rest
  max (-2 ^ 63) (min n (2 ^ 63 - 1))

/-- `atoi`: the `long` cut to an `int`. -/
def atoi (s : CString) : Int := (atol s).bmod (2 ^ 32)

/-- The tokens `strtok` finds in a string: the parts between delimiters that are
not empty. -/
def strtok (delim : Char) (s : CString) : List CString :=
  (s.splitOn delim).filter (fun token => token ≠ [])

/-- The loop of the `-P` and `-Z` cases: tokens go into the array from index 0 on. -/
def storeTokens (array : List Int) (optarg : CString) : List Int :=
  (strtok ',' optarg).map atoi ++ array.drop (strtok ',' optarg).length

/-- There is a token to start with, and room for all of them. -/
def tokensFit (len : Nat) (optarg : CString) : Bool :=
  1 ≤ (strtok ',' optarg).length && (strtok ',' optarg).length ≤ len

/-! ## `getopt` -/

/-- An option as `getopt` returns it, with its `optarg` (empty for a flag). -/
structure Opt where
  letter : Char
  optarg : CString
  deriving DecidableEq, Repr

/-- What `getopt` returns for a letter it does not know, or for a missing argument. -/
def Opt.unknown : Opt := ⟨'?', []⟩

/-- `optstr`, without the leading `+`. -/
def optstr : CString := "i:f:F:P:M:d:Z:t:T:B:hp".toList

/-- The lookup of a letter in an option string: is it followed by a colon? -/
def takesArg (c : Char) : CString → Option Bool
  | [] => none
  | a :: rest =>
    if c = ':' || c = ';' then none
    else if a = c then some (rest.head? = some ':')
    else takesArg c rest

/-- The options in one word after its `-`, and the one that waits for the next
word. -/
def cluster : CString → List Opt × Option Char
  | [] => ([], none)
  | c :: rest =>
    match takesArg c optstr with
    | none => (Opt.unknown :: (cluster rest).1, (cluster rest).2)
    | some false => (⟨c, []⟩ :: (cluster rest).1, (cluster rest).2)
    | some true =>
      match rest with
      | [] => ([], some c)
      | _ :: _ => ([⟨c, rest⟩], none)

/-- All that `getopt` returns until it returns -1, and the words from `optind` on. -/
def getopt : List CString → List Opt × List CString
  | [] => ([], [])
  | word :: words =>
    match word with
    | '-' :: c :: rest =>
      if c = '-' && rest = [] then ([], words)
      else
        match cluster (c :: rest) with
        | (os, none) => (os ++ (getopt words).1, (getopt words).2)
        | (os, some waiting) =>
          match words with
          | [] => (os ++ [Opt.unknown], [])
          | arg :: words => (os ++ ⟨waiting, arg⟩ :: (getopt words).1, (getopt words).2)
    | _ => ([], word :: words)

/-! ## The settings -/

/-- The globals that `options_read_args` writes. -/
structure Settings where
  options : Options
  mqttAddr : CString
  portList : List Int
  config : StringMap

/-- The size `options.mqtt_addr` is allocated with. -/
def mqttAddrSize : Nat := 64

/-- The number of entries of `options.block_protocols`. -/
def blockProtocolsLen : Nat := 32

/-- The broker `options_set_defaults` writes. -/
def defaultBroker : CString := "tcp://test.mosquitto.org:1883".toList

/-- `options_set_defaults`, and the globals as they are before. The network and
its mask are 10.0.1.0 and 255.255.255.0. -/
def optionsSetDefaults : Settings where
  options :=
    { promiscuousButChoosy := false
      netfilter := false
      netfilternet := 65546
      netfiltermask := 16777215
      historyDeleteInterval := 0
      threshold := 0
      duration := 0
      blockProtocols := List.replicate blockProtocolsLen (-1)
      sendInterval := 0 }
  mqttAddr := defaultBroker
  portList := List.replicate portListLen 0
  config := .leaf

/-- How `options_read_args` ends when it does not return. -/
inductive Stop where
  | exit (status : Int)
  | undefined
  deriving DecidableEq, Repr

/-- `config_set_string` on the settings. -/
def Settings.setString (s : Settings) (directive value : CString) : Settings :=
  { s with config := configSetString s.config directive value }

/-- `strcpy(options.mqtt_addr, optarg)`. -/
def Settings.copyAddr (s : Settings) (optarg : CString) : Except Stop Settings :=
  if optarg.length < mqttAddrSize then .ok { s with mqttAddr := optarg } else .error .undefined

/-- The `switch` of `options_read_args`. -/
def readOpt (s : Settings) (o : Opt) : Except Stop Settings :=
  match o.letter with
  | 'h' => .error (.exit 0)
  | 'i' => .ok (s.setString "interface".toList o.optarg)
  | 'f' => .ok (s.setString "filter-code".toList o.optarg)
  | 'p' => .ok (s.setString "promiscuous".toList "true".toList)
  | 'F' => .ok (s.setString "net-filter".toList o.optarg)
  | '?' => .error (.exit 1)
  | ':' => .error (.exit 1)
  | 'P' =>
    if tokensFit portListLen o.optarg then
      .ok { s with portList := storeTokens (List.replicate portListLen (-1)) o.optarg }
    else .error .undefined
  | 't' => .ok { s with options.historyDeleteInterval := atol o.optarg }
  | 'T' => .ok { s with options.threshold := Int64.ofInt (atol o.optarg) }
  | 'd' => .ok { s with options.duration := atoi o.optarg }
  | 'Z' =>
    if tokensFit blockProtocolsLen o.optarg then
      .ok { s with options.blockProtocols := storeTokens s.options.blockProtocols o.optarg }
    else .error .undefined
  | 'M' =>
    -- the case has no `break`
    let s := { s with options.sendInterval := (atoi o.optarg * 60).bmod (2 ^ 32) }
    s.copyAddr o.optarg
  | 'B' => s.copyAddr o.optarg
  | _ => .ok s

/-- The settings made before the first option is read. -/
def Settings.fixed (s : Settings) : Settings :=
  ((s.setString "dns-resolution".toList "false".toList).setString
    "port-resolution".toList "false".toList).setString "no-curses".toList "true".toList

/-- `options_read_args`; `file` are the words of `options_args.txt`, if it is
there, and `argv` the words after the program name. -/
def optionsReadArgs (s : Settings) (file : Option (List CString)) (argv : List CString) :
    Except Stop Settings := do
  let words := file.getD argv
  let s ← (getopt words).1.foldlM readOpt s.fixed
  if (getopt words).2 = [] then .ok s else .error (.exit 1)

/-- A string of digits is read as its value. -/
theorem atoi_digits {token : CString} (hne : token ≠ [])
    (hd : ∀ c ∈ token, c.isDigit = true) (hsmall : digitsValue token < 2 ^ 31) :
    atoi token = (digitsValue token : Int) := by
  obtain ⟨c, rest, rfl⟩ := List.exists_cons_of_ne_nil hne
  have hc : c.isDigit = true := hd c List.mem_cons_self
  have hrange : 48 ≤ c.toNat ∧ c.toNat ≤ 57 := by
    simpa [Char.isDigit, Char.le_def, UInt32.le_iff_toNat_le] using hc
  -- a digit is neither a blank nor a sign
  have hspace : isSpace c = false := by
    unfold isSpace
    have hne : c ≠ ' ' := by
      rintro rfl
      exact absurd hrange (by decide)
    simp only [hne, decide_false, Bool.false_or, Bool.and_eq_false_iff, decide_eq_false_iff_not]
    omega
  have hminus : c ≠ '-' := by
    rintro rfl
    exact absurd hrange (by decide)
  have hplus : c ≠ '+' := by
    rintro rfl
    exact absurd hrange (by decide)
  have hlong : atol (c :: rest) = (digitsValue (c :: rest) : Int) := by
    unfold atol
    rw [List.dropWhile_cons_of_neg (by simp [hspace])]
    split
    next heq => exact absurd (List.cons.inj heq).1 hminus
    next heq => exact absurd (List.cons.inj heq).1 hplus
    next =>
      have hle : (digitsValue (c :: rest) : Int) < 2 ^ 31 := by exact_mod_cast hsmall
      show max (-2 ^ 63) (min (digitsValue (c :: rest) : Int) (2 ^ 63 - 1)) = _
      omega
  rw [atoi, hlong]
  exact Int.bmod_eq_of_le (by omega) (by omega)

/-- What `-P` stores is the port list of the capture path. -/
theorem storeTokens_ports {ports : List UInt16} {optarg : CString}
    (h : (strtok ',' optarg).map atoi = ports.map (fun p => (p.toNat : Int))) :
    storeTokens (List.replicate portListLen (-1)) optarg = storePortList ports := by
  have hlen : (strtok ',' optarg).length = ports.length := by
    have := congrArg List.length h
    simpa using this
  rw [storeTokens, h, hlen, List.drop_replicate]
  rfl

/-- With an argument file the command line is not looked at. -/
theorem optionsReadArgs_file (s : Settings) (words argv : List CString) :
    optionsReadArgs s (some words) argv = optionsReadArgs s none words := rfl

/-! ## Spelling options -/

/-- The words of one option: `-x`, and its argument as a word of its own. -/
def Opt.spell (o : Opt) : List CString :=
  if takesArg o.letter optstr = some true then [['-', o.letter], o.optarg] else [['-', o.letter]]

/-- An option of `optstr`; a flag has no argument. -/
def Opt.Listed (o : Opt) : Prop :=
  takesArg o.letter optstr = some true ∨ takesArg o.letter optstr = some false ∧ o.optarg = []

theorem getopt_spell (words : List CString) : ∀ {opts : List Opt}, (∀ o ∈ opts, o.Listed) →
    getopt (opts.flatMap Opt.spell ++ words) =
      (opts ++ (getopt words).1, (getopt words).2) := by
  intro opts
  induction opts with
  | nil => intro _; rfl
  | cons o opts ih =>
    intro h
    have hrest := ih (fun o ho => h o (List.mem_cons_of_mem _ ho))
    -- `-` is no option letter, so the word is not `--`
    have hdash : takesArg '-' optstr = none := by decide
    rcases h o List.mem_cons_self with harg | ⟨hflag, hempty⟩
    · have hne : o.letter ≠ '-' := by
        intro heq
        rw [heq, hdash] at harg
        cases harg
      have hcluster : cluster [o.letter] = ([], some o.letter) := by simp [cluster, harg]
      simp only [List.flatMap_cons, Opt.spell, if_pos harg, List.cons_append, List.nil_append]
      rw [getopt]
      simp [hne, hcluster, hrest]
    · have hne : o.letter ≠ '-' := by
        intro heq
        rw [heq, hdash] at hflag
        cases hflag
      have hcluster : cluster [o.letter] = ([o], none) := by simp [cluster, hflag, ← hempty]
      have hspell : o.spell = [['-', o.letter]] := by simp [Opt.spell, hflag]
      simp only [List.flatMap_cons, hspell, List.cons_append, List.nil_append]
      rw [getopt]
      simp [hne, hcluster, hrest]

end Dotqoo.Config
