import Dotqoo.Config.Args
import Dotqoo.Lib.Bytes

/-!
# From the configuration to the options

`options_make` of `options.c`, with its accessors and those of `cfgfile.c`. An
accessor is given the option as it is and gives it back, with its return value
and what it prints on `stderr`.

Mirroring notes:
- `inet_aton` and `inet_pton` are parameters. Where they fail they leave the
  address alone.
- `options_config_get_bw_rate` prints a message when `sscanf` fails and goes on
  with a variable it never assigned; a mask length that `atoi` reads as a negative
  number is shifted by. What C leaves open there are parameters, too.
- Three accessors (for `net-filter`, `net-filter6` and `max-bandwidth`) cut the value of
  their directive in place. `options_make` runs once, and nothing reads these directives
  again.
- `MakeOptions` has the fields that `options_make` writes, next to those the
  capture path reads. A `long long` is an `Int64`, and products wrap.
-/

namespace Dotqoo.Config

open Dotqoo.Capture Dotqoo.Lib

/-! ## What the code relies on -/

/-- The address parsers of the C library; `none` where they fail. -/
structure Inet where
  aton : CString → Option UInt32
  pton6 : CString → Option (List UInt8)

/-- The values C leaves open: the variable that is not assigned, and
`0xffffffff >> n` for a negative `n`. -/
structure Leftovers where
  value : Int64
  shifted : UInt32

/-- The number a string has behind blanks and a sign. -/
def unsignedPart (s : CString) : CString :=
  match s.dropWhile isSpace with
  | '-' :: rest => rest
  | '+' :: rest => rest
  | rest => rest

/-- What `strtol(s, &t, 10)` leaves at `t`. -/
def strtolRest (s : CString) : CString :=
  if (unsignedPart s).takeWhile Char.isDigit = [] then s
  else (unsignedPart s).dropWhile Char.isDigit

/-- Does `strtol` set `errno` to `ERANGE`? -/
def strtolErange (s : CString) : Bool :=
  if (s.dropWhile isSpace).head? = some '-' then 2 ^ 63 < digitsValue (unsignedPart s)
  else 2 ^ 63 ≤ digitsValue (unsignedPart s)

/-- `htonl` on a little-endian host. -/
def htonl (x : UInt32) : UInt32 :=
  (x <<< 24) ||| ((x &&& (0xff00 : UInt32)) <<< 8) ||| ((x >>> 8) &&& (0xff00 : UInt32))
    ||| (x >>> 24)

/-! ## The accessors of `cfgfile.c` -/

/-- `config_get_bool`. -/
def configGetBool (config : StringMap) (directive : CString) : Bool :=
  match configGetString config directive with
  | some s => strcmp s "yes".toList = .eq || strcmp s "true".toList = .eq
  | none => false

/-- `config_get_int`: what is at `value` afterwards, and the result. -/
def configGetInt (config : StringMap) (directive : CString) (value : Int) : Int × Int :=
  match configGetString config directive with
  | none => (value, 0)
  | some s =>
    if s = [] then (value, -1)
    -- the value is written before it is looked at
    else if strtolRest s ≠ [] then (atoi s, -1)
    else (atoi s, if strtolErange s then -1 else 1)

/-- `config_get_enum`: the value, if there is one, and the message. -/
def configGetEnum {β : Type} (config : StringMap) (directive : CString)
    (enumeration : List (CString × β)) : Option β × CString :=
  match configGetString config directive with
  | none => (none, [])
  | some s =>
    match enumeration.find? (fun t => strcmp s t.1 = .eq) with
    | some t => (some t.2, [])
    | none => (none, "Invalid enumeration value \"".toList ++ s ++ "\" for directive \"".toList
        ++ directive ++ "\"\n".toList)

/-! ## The accessors of `options.c` -/

/-- `option_sort_t`. -/
inductive OptionSort where
  | sortDiv1 | sortDiv2 | sortDiv3 | sortSrc | sortDest
  deriving DecidableEq, Repr

/-- `option_linedisplay_t`. -/
inductive OptionLinedisplay where
  | twoLine | oneLineBoth | oneLineRecv | oneLineSent
  deriving DecidableEq, Repr

/-- `option_port_t`. -/
inductive OptionPort where
  | portsOff | portsSrc | portsDest | portsOn
  deriving DecidableEq, Repr

/-- `sort_enumeration`. -/
def sortEnumeration : List (CString × OptionSort) :=
  [("2s".toList, .sortDiv1), ("10s".toList, .sortDiv2), ("40s".toList, .sortDiv3),
    ("source".toList, .sortSrc), ("destination".toList, .sortDest)]

/-- `linedisplay_enumeration`. -/
def linedisplayEnumeration : List (CString × OptionLinedisplay) :=
  [("two-line".toList, .twoLine), ("one-line-both".toList, .oneLineBoth),
    ("one-line-sent".toList, .oneLineSent), ("one-line-received".toList, .oneLineRecv)]

/-- `showports_enumeration`. -/
def showportsEnumeration : List (CString × OptionPort) :=
  [("off".toList, .portsOff), ("source-only".toList, .portsSrc),
    ("destination-only".toList, .portsDest), ("on".toList, .portsOn)]

/-- The IPv6 net filter; the addresses have 16 bytes. -/
structure Net6 where
  netfilter6 : Bool
  netfilter6net : List UInt8
  netfilter6mask : List UInt8

/-- The options that `options_make` writes. -/
structure MakeOptions extends Options where
  interface : Option CString
  dnsresolution : Bool
  portresolution : Bool
  filtercode : Option CString
  showbars : Bool
  promiscuous : Bool
  aggregateSrc : Bool
  aggregateDest : Bool
  bandwidthInBytes : Bool
  sort : OptionSort
  linedisplay : OptionLinedisplay
  showTotals : Bool
  logScale : Bool
  maxBandwidth : Int64
  showports : OptionPort
  screenfilter : Option CString
  linkLocal : Bool
  timedOutput : Int
  noCurses : Bool
  numLines : Int
  net6 : Net6

/-- What an accessor leaves: the option, its return value, and what it has
printed on `stderr`. -/
structure Got (β : Type) where
  value : β
  result : Bool
  stderr : CString

section Accessors

variable (config : StringMap)

/-- `options_config_get_string`. -/
def optionsConfigGetString (name : CString) (value : Option CString) : Got (Option CString) :=
  match configGetString config name with
  | some s => ⟨some s, true, []⟩
  | none => ⟨value, false, []⟩

/-- `options_config_get_bool`. -/
def optionsConfigGetBool (name : CString) (value : Bool) : Got Bool :=
  match configGetString config name with
  | some _ => ⟨configGetBool config name, true, []⟩
  | none => ⟨value, false, []⟩

/-- `options_config_get_int`: the result of `config_get_int` is not looked at. -/
def optionsConfigGetInt (name : CString) (value : Int) : Got Int :=
  match configGetString config name with
  | some _ => ⟨(configGetInt config name value).1, true, []⟩
  | none => ⟨value, false, []⟩

/-- `options_config_get_enum`. -/
def optionsConfigGetEnum {β : Type} (name : CString) (enumeration : List (CString × β))
    (result : β) : Got β :=
  match configGetString config name with
  | some _ =>
    match configGetEnum config name enumeration with
    | (some i, stderr) => ⟨i, true, stderr⟩
    | (none, stderr) => ⟨result, false, stderr⟩
  | none => ⟨result, false, []⟩

/-- `options_config_get_promiscuous`, which writes `promiscuous` and
`promiscuous_but_choosy`. -/
def optionsConfigGetPromiscuous (o : Bool × Bool) : Got (Bool × Bool) :=
  match configGetString config "promiscuous".toList with
  | some _ =>
    let promiscuous := configGetBool config "promiscuous".toList
    ⟨(promiscuous, if promiscuous then false else o.2), true, []⟩
  | none => ⟨o, false, []⟩

/-- The multiplier of a unit letter. -/
def unitMult (c : Char) : Option Int64 :=
  if c = 'k' || c = 'K' then some 1024
  else if c = 'm' || c = 'M' then some (1024 * 1024)
  else if c = 'g' || c = 'G' then some (1024 * 1024 * 1024)
  else if c = 'b' || c = 'B' then some 1
  else none

/-- The end of `options_config_get_bw_rate`: `s` is cut behind its digits and read. -/
def readRate (left : Leftovers) (s : CString) (mult : Int64) : Got Int64 :=
  let s := s.takeWhile Char.isDigit
  if s = [] then
    -- the message is all: `value` is used as it is
    ⟨left.value * mult, true, "Error reading rate: ".toList ++ s ++ ['\n']⟩
  else ⟨Int64.ofInt (atol s) * mult, true, []⟩

/-- `options_config_get_bw_rate`, which writes `options.max_bandwidth`. -/
def optionsConfigGetBwRate (left : Leftovers) (directive : CString) (maxBandwidth : Int64) :
    Got Int64 :=
  match configGetString config directive with
  | none => ⟨maxBandwidth, false, []⟩
  | some s =>
    let invalid : Got Int64 :=
      ⟨maxBandwidth, false, "Invalid units in value: ".toList ++ s ++ ['\n']⟩
    match s.dropWhile Char.isDigit with
    | [] => readRate left s 1
    | [c] =>
      match unitMult c with
      | some mult => readRate left s mult
      | none => invalid
    | _ :: _ :: _ => invalid

/-- `mm >>= n`, from all ones. -/
def shiftedOnes (left : Leftovers) (n : Int) : UInt32 :=
  if 0 ≤ n then 0xffffffff >>> UInt32.ofNat n.toNat else left.shifted

/-- The mask for a length of at most 32. -/
def lengthMask (left : Leftovers) (n : Int) : UInt32 :=
  if n = 32 then htonl 0xffffffff else htonl (~~~ shiftedOnes left n)

/-- The end of `options_config_get_net_filter`: the network is masked. -/
def maskNet (o : Options) (stderr : CString) : Got Options :=
  ⟨{ o with netfilternet := o.netfilternet &&& o.netfiltermask }, true, stderr⟩

/-- The part of a value in front of the first `/`. -/
def netPart (s : CString) : CString := s.takeWhile fun c => c ≠ '/'

/-- The part behind it. -/
def maskPart (s : CString) : CString := (s.dropWhile fun c => c ≠ '/').tail

/-- Only digits, or nothing at all. -/
def isNumeric (mask : CString) : Bool := mask.dropWhile Char.isDigit = []

/-- `options_config_get_net_filter`. -/
def optionsConfigGetNetFilter (inet : Inet) (left : Leftovers) (o : Options) : Got Options :=
  match configGetString config "net-filter".toList with
  | none => ⟨o, false, []⟩
  | some s =>
    let o := { o with netfilter := false }
    if '/' ∉ s then ⟨o, false, "Could not parse net/mask: ".toList ++ s ++ ['\n']⟩
    else
      match inet.aton (netPart s) with
      | none => ⟨o, false, "Invalid network address: ".toList ++ netPart s ++ ['\n']⟩
      | some net =>
        let o := { o with netfilternet := net }
        let mask := maskPart s
        if isNumeric mask then
          if 32 < atoi mask then
            -- the filter is switched on all the same, with the mask as it was
            maskNet { o with netfilter := true }
              ("Invalid netmask length: ".toList ++ mask ++ ['\n'])
          else maskNet { o with netfilter := true, netfiltermask := lengthMask left (atoi mask) } []
        else
          match inet.aton mask with
          | some m => maskNet { o with netfilter := true, netfiltermask := m } []
          | none => ⟨o, false, "Invalid netmask: ".toList ++ netPart s ++ ['\n']⟩

/-- The IPv6 mask for a prefix of `n` bits: the bytes behind it stay. -/
def lengthMask6 (n : Nat) (mask : List UInt8) : List UInt8 :=
  List.replicate (n / 8) (0xff : UInt8) ++
    if n % 8 = 0 then mask.drop (n / 8)
    else UInt8.ofNat (0xff <<< (8 - n % 8)) :: mask.drop (n / 8 + 1)

/-- The end of `options_config_get_net_filter6`. -/
def maskNet6 (o : Net6) (stderr : CString) : Got Net6 :=
  ⟨{ o with netfilter6net := List.zipWith (· &&& ·) o.netfilter6net o.netfilter6mask }, true,
    stderr⟩

/-- `options_config_get_net_filter6`. -/
def optionsConfigGetNetFilter6 (inet : Inet) (o : Net6) : Got Net6 :=
  match configGetString config "net-filter6".toList with
  | none => ⟨o, false, []⟩
  | some s =>
    let o := { o with netfilter6 := false }
    if '/' ∉ s then ⟨o, false, "Could not parse IPv6 net/prefix: ".toList ++ s ++ ['\n']⟩
    else
      match inet.pton6 (netPart s) with
      | none => ⟨o, false, "Invalid IPv6 network address: ".toList ++ netPart s ++ ['\n']⟩
      | some net =>
        let o := { o with netfilter6net := net }
        let mask := maskPart s
        if isNumeric mask then
          -- `n` is unsigned
          let n := (atoi mask % 2 ^ 32).toNat
          if 128 < n || n < 1 then
            maskNet6 o ("Invalid IPv6 prefix length: ".toList ++ mask ++ ['\n'])
          else
            maskNet6 { o with
              netfilter6 := true, netfilter6mask := lengthMask6 n o.netfilter6mask } []
        else
          match inet.pton6 mask with
          | some m => maskNet6 { o with netfilter6 := true, netfilter6mask := m } []
          | none => ⟨o, false, "Invalid IPv6 netmask: ".toList ++ netPart s ++ ['\n']⟩

end Accessors

/-! ## `options_make` -/

/-- The options in the making, and what has been printed. -/
structure Made where
  options : MakeOptions
  stderr : CString

/-- The call of an accessor for one part of the options. -/
def Made.call {β : Type} (m : Made) (part : MakeOptions → β)
    (store : MakeOptions → β → MakeOptions) (accessor : β → Got β) : Made :=
  ⟨store m.options (accessor (part m.options)).value,
    m.stderr ++ (accessor (part m.options)).stderr⟩

/-- `options_make`. -/
def optionsMake (inet : Inet) (left : Leftovers) (config : StringMap) (o : MakeOptions) : Made :=
  (⟨o, []⟩ : Made)
    |>.call (·.interface) (fun o v => { o with interface := v })
        (optionsConfigGetString config "interface".toList)
    |>.call (·.dnsresolution) (fun o v => { o with dnsresolution := v })
        (optionsConfigGetBool config "dns-resolution".toList)
    |>.call (·.portresolution) (fun o v => { o with portresolution := v })
        (optionsConfigGetBool config "port-resolution".toList)
    |>.call (·.filtercode) (fun o v => { o with filtercode := v })
        (optionsConfigGetString config "filter-code".toList)
    |>.call (·.showbars) (fun o v => { o with showbars := v })
        (optionsConfigGetBool config "show-bars".toList)
    |>.call (fun o => (o.promiscuous, o.promiscuousButChoosy))
        (fun o v => { o with promiscuous := v.1, promiscuousButChoosy := v.2 })
        (optionsConfigGetPromiscuous config)
    |>.call (·.aggregateSrc) (fun o v => { o with aggregateSrc := v })
        (optionsConfigGetBool config "hide-source".toList)
    |>.call (·.aggregateDest) (fun o v => { o with aggregateDest := v })
        (optionsConfigGetBool config "hide-destination".toList)
    |>.call (·.bandwidthInBytes) (fun o v => { o with bandwidthInBytes := v })
        (optionsConfigGetBool config "use-bytes".toList)
    |>.call (·.sort) (fun o v => { o with sort := v })
        (optionsConfigGetEnum config "sort".toList sortEnumeration)
    |>.call (·.linedisplay) (fun o v => { o with linedisplay := v })
        (optionsConfigGetEnum config "line-display".toList linedisplayEnumeration)
    |>.call (·.showTotals) (fun o v => { o with showTotals := v })
        (optionsConfigGetBool config "show-totals".toList)
    |>.call (·.logScale) (fun o v => { o with logScale := v })
        (optionsConfigGetBool config "log-scale".toList)
    |>.call (·.maxBandwidth) (fun o v => { o with maxBandwidth := v })
        (optionsConfigGetBwRate config left "max-bandwidth".toList)
    |>.call (·.showports) (fun o v => { o with showports := v })
        (optionsConfigGetEnum config "port-display".toList showportsEnumeration)
    |>.call (·.screenfilter) (fun o v => { o with screenfilter := v })
        (optionsConfigGetString config "screen-filter".toList)
    |>.call (·.linkLocal) (fun o v => { o with linkLocal := v })
        (optionsConfigGetBool config "link-local".toList)
    |>.call (·.timedOutput) (fun o v => { o with timedOutput := v })
        (optionsConfigGetInt config "timed-output".toList)
    |>.call (·.noCurses) (fun o v => { o with noCurses := v })
        (optionsConfigGetBool config "no-curses".toList)
    |>.call (·.numLines) (fun o v => { o with numLines := v })
        (optionsConfigGetInt config "num-lines".toList)
    |>.call (·.toOptions) (fun o v => { o with toOptions := v })
        (optionsConfigGetNetFilter config inet left)
    |>.call (·.net6) (fun o v => { o with net6 := v })
        (optionsConfigGetNetFilter6 config inet)

/-! ## Dotted quads -/

/-- Four octets. -/
structure Quad where
  a : UInt8
  b : UInt8
  c : UInt8
  d : UInt8

/-- The address in network order. -/
def Quad.addr (q : Quad) : UInt32 := UInt32.ofNat (ofLe [q.a, q.b, q.c, q.d])

/-- An octet in decimal. -/
def decimal (n : UInt8) : CString := Nat.toDigits 10 n.toNat

/-- `a.b.c.d`. -/
def Quad.spell (q : Quad) : CString :=
  ['.'].intercalate [decimal q.a, decimal q.b, decimal q.c, decimal q.d]

/-- What is documented of `inet_aton` for dotted quads. -/
def ReadsQuads (aton : CString → Option UInt32) : Prop := ∀ q : Quad, aton q.spell = some q.addr

/-- An octet, if the string is one. -/
def octet (s : CString) : Option UInt8 :=
  if s ≠ [] ∧ (s.all Char.isDigit) = true ∧ digitsValue s < 256 then
    some (UInt8.ofNat (digitsValue s))
  else none

/-- A parser of dotted quads, and of nothing else. -/
def quadsOnly : Inet where
  aton := fun s =>
    match (s.splitOn '.').map octet with
    | [some a, some b, some c, some d] => some (Quad.addr ⟨a, b, c, d⟩)
    | _ => none
  pton6 := fun _ => none

theorem decimal_facts (n : UInt8) :
    (∀ c ∈ decimal n, c.isDigit = true) ∧ octet (decimal n) = some n := by
  have hall : ∀ k < 256, (Nat.toDigits 10 k).all Char.isDigit = true
      ∧ octet (Nat.toDigits 10 k) = some (UInt8.ofNat k) := by
    decide +kernel
  obtain ⟨hdigits, hoctet⟩ := hall n.toNat n.toNat_lt
  exact ⟨List.all_eq_true.mp hdigits, by rw [decimal, hoctet, UInt8.ofNat_toNat]⟩

/-- The characters of a dotted quad. -/
theorem mem_spell {q : Quad} {c : Char} (h : c ∈ q.spell) : c.isDigit = true ∨ c = '.' := by
  have hdigit : ∀ n : UInt8, c ∈ decimal n → c.isDigit = true := fun n => (decimal_facts n).1 c
  simp only [Quad.spell, List.intercalate_cons_cons, List.intercalate_singleton, List.mem_append,
    List.mem_singleton] at h
  rcases h with (h | h) | (h | h) | (h | h) | h
  all_goals first | exact Or.inr h | exact Or.inl (hdigit _ h)

theorem quadsOnly_reads : ReadsQuads quadsOnly.aton := by
  intro q
  have hsplit : q.spell.splitOn '.' = [decimal q.a, decimal q.b, decimal q.c, decimal q.d] := by
    refine List.splitOn_intercalate '.' (fun part hpart hdot => ?_) (by simp)
    have hdecimal : ∃ n, part = decimal n := by
      simp only [List.mem_cons, List.not_mem_nil, or_false] at hpart
      rcases hpart with h | h | h | h
      all_goals exact ⟨_, h⟩
    obtain ⟨n, rfl⟩ := hdecimal
    exact absurd ((decimal_facts n).1 '.' hdot) (by decide)
  simp only [quadsOnly, hsplit, List.map_cons, List.map_nil, (decimal_facts _).2]

end Dotqoo.Config
