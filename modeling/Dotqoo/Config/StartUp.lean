import Dotqoo.Config.ArgsFaithful
import Dotqoo.Config.ArgOrder
import Dotqoo.Config.Malformed

/-!
# Start-up

What `main` does before the capture starts: the defaults, the options, the
configuration file and `options_make`, one after the other. `startUp_settled` says what
every setting is then, for any words and any files.

A directive has its last value from the options, or else the value of its first line in
the file: the file is read over what the options have stored, and `stringmap_insert`
keeps what is there (`configGetString_readLines`). Three directives are stored before
the first option is read, so no file changes them; `screen-filter` is asked for, but no
line can be for it. The settings of the capture path are in no file.

Mirroring notes:
- `if_nameindex` is a list of names, or `NULL`. Whether an interface is `usable` is the
  last test of `get_first_interface`: no socket, no flags, or `IFF_UP`.
- `files` is what `fopen` and reading give for a name, or the text of `strerror`.
- The file that is read is never one that was specified, so a file that is not there is
  passed over in silence.
-/

namespace Dotqoo.Config

open Dotqoo.Capture Dotqoo.Lib

/-! ## The interface -/

/-- `bad_interface_names`. -/
def badInterfaceNames : List CString :=
  ["lo:", "lo", "stf", "gif", "dummy", "vmnet", "wmaster"].map String.toList

/-- `is_bad_interface_name`. -/
def isBadInterfaceName (i : CString) : Bool := badInterfaceNames.any fun p => p.isPrefixOf i

/-- `get_first_interface`. -/
def getFirstInterface (nameindex : Option (List CString)) (usable : CString → Bool) :
    Option CString :=
  (nameindex.getD []).find? fun name =>
    strcmp name "lo".toList ≠ .eq && !isBadInterfaceName name && usable name

/-! ## `main` up to `options_make` -/

/-- What the program finds when it starts. -/
structure Host where
  nameindex : Option (List CString)
  usable : CString → Bool
  home : Option CString
  files : CString → Except CString (List Char)
  stack : Stack
  argv : List CString

namespace Host

variable (h : Host)

/-- `options.interface` of `options_set_defaults`. -/
def interface : CString := (getFirstInterface h.nameindex h.usable).getD "eth0".toList

/-- `options.config_file`. -/
def configFile : CString :=
  match h.home with
  | some s => s ++ "/.iftoprc".toList
  | none => "iftoprc".toList

/-- The words that `getopt` is given. -/
def words : Except Stop (List CString) :=
  match h.files "./options_args.txt".toList with
  | .error _ => .ok h.argv
  | .ok text =>
    match readArgsFromFile h.stack text with
    | some words => .ok words
    | none => .error .undefined

end Host

/-- The settings after `options_make`, the configuration as it was given to it, and what was
printed. -/
structure Started where
  options : MakeOptions
  mqttAddr : CString
  portList : List Int
  config : StringMap
  stderr : List CString

/-- The calls of `main` up to `options_make`. -/
def startUp (inet : Inet) (left : Leftovers) (h : Host) : Except Stop Started := do
  let words ← h.words
  let s ← optionsReadArgs optionsSetDefaults none words
  let read := (readConfigFile h.configFile false (h.files h.configFile) s.config).2
  let made := optionsMake inet left read.config
    { makeDefaults with toOptions := s.options, interface := some h.interface }
  .ok ⟨made.options, s.mqttAddr, s.portList, read.config, read.stderr ++ [made.stderr]⟩

/-! ## The file over the options -/

/-- A line stores nothing under a name that is no directive. -/
theorem configGetString_storeLine_unknown (f : CString) (i : Nat) (r : Reading) (line : CString)
    {d : CString} (hd : d ∉ configDirectives) :
    configGetString (storeLine f i r line).config d = configGetString r.config d := by
  unfold storeLine
  cases splitLine line with
  | none => rfl
  | some item =>
    obtain ⟨key, value⟩ := item
    show configGetString (storeItem f i r key value).config d = _
    unfold storeItem
    by_cases hkey : isCfgdirectiveValid key = true
    · have hne : d ≠ key := by
        rintro rfl
        exact hd ((isCfgdirectiveValid_iff d).mp hkey)
      rw [if_neg (by simp [hkey]), configGetString_insert, if_neg hne]
    · rw [if_pos (by simp [hkey])]

/-- Nothing is read yet. -/
def unread : Reading := ⟨.leaf, []⟩

/-- Two readings of a file go along. -/
theorem readLines_rel {R : Reading → Reading → Prop} (f : CString)
    (hstep : ∀ i line r r', R r r' → R (storeLine f i r line) (storeLine f i r' line)) :
    ∀ (text : List Char) (i : Nat) (r r' : Reading), R r r' →
      R (readLines f i text r) (readLines f i text r') := by
  intro text
  induction hlen : text.length using Nat.strongRecOn generalizing text with
  | ind n ih =>
    intro i r r' h
    cases hread : readLine text with
    | none =>
      have hend : ∀ r, readLines f i text r = r := by
        intro r
        rw [readLines]
        split
        next => rfl
        next hsome =>
          rw [hread] at hsome
          cases hsome
      rwa [hend, hend]
    | some read =>
      obtain ⟨line, left⟩ := read
      have hlt : left.length < n := hlen ▸ readLine_lt hread
      rw [readLines_of_readLine hread, readLines_of_readLine hread]
      exact ih _ hlt left rfl (i + 1) _ _ (hstep i line r r' h)

/-- Under a name that is no directive nothing is read. -/
theorem configGetString_readLines_unknown (f : CString) {d : CString} (hd : d ∉ configDirectives)
    (text : List Char) (i : Nat) (r : Reading) :
    configGetString (readLines f i text r).config d = configGetString r.config d :=
  readLines_rel (R := fun s _ => configGetString s.config d = configGetString r.config d) f
    (fun i line s _ h => (configGetString_storeLine_unknown f i s line hd).trans h) text i r r rfl

/-- **A file is read over what is stored**: what has a value keeps it, and the rest is as
the file alone has it. -/
theorem configGetString_readLines (f : CString) (d : CString) (text : List Char) (i : Nat)
    (r : Reading) : configGetString (readLines f i text r).config d =
      (configGetString r.config d).or (configGetString (readLines f i text unread).config d) := by
  by_cases hd : d ∈ configDirectives
  · refine readLines_rel (R := fun r' alone => configGetString r'.config d
      = (configGetString r.config d).or (configGetString alone.config d)) f
      (fun i line r' alone h => ?_) text i r unread ?_
    · rw [configGetString_storeLine f i r' line hd, configGetString_storeLine f i alone line hd, h,
        Option.or_assoc]
    · exact (Option.or_none).symm
  · rw [configGetString_readLines_unknown f hd, configGetString_readLines_unknown f hd]
    exact (Option.or_none).symm

/-! ## What the settings are -/

/-- The last option of those that a test finds. -/
def lastOpt (test : Opt → Bool) (opts : List Opt) : Option Opt := (opts.filter test).getLast?

/-- The argument of the last option with a letter. -/
def lastArg (c : Char) (opts : List Opt) : Option CString :=
  (lastOpt (fun o => o.letter = c) opts).map Opt.optarg

/-- The spellings of a flag that is on. -/
def isOn (s : CString) : Bool := s = "yes".toList || s = "true".toList

namespace Host

variable (h : Host)

/-- The value of a directive in the file. -/
def fileValue (d : CString) : Option CString :=
  configGetString (readConfigFile h.configFile false (h.files h.configFile) .leaf).2.config d

/-- The value of a directive: of the last option for it, or fixed, or from the file. -/
def directive (opts : List Opt) (d : CString) : Option CString :=
  ((lastOpt (fun o => optionFor d = some o.letter) opts).map Opt.value).or
    ((configGetString optionsSetDefaults.fixed.config d).or (h.fileValue d))

/-- What the options and the file come to. The directives are those that `options_make` reads;
three of its accessors cut the value they have read. -/
structure Settled (opts : List Opt) (st : Started) : Prop where
  directives : ∀ d, configGetString st.config d = h.directive opts d
  interface : st.options.interface
    = some ((h.directive opts "interface".toList).getD h.interface)
  filtercode : st.options.filtercode = h.directive opts "filter-code".toList
  promiscuous : st.options.promiscuous
    = (h.directive opts "promiscuous".toList).any isOn
  netfilter : h.directive opts "net-filter".toList = none → st.options.netfilter = false
  -- only a file has this
  timedOutput : st.options.timedOutput
    = ((h.fileValue "timed-output".toList).filter fun s => s ≠ []).elim 0 atoi
  -- nothing changes these
  dnsresolution : st.options.dnsresolution = false
  portresolution : st.options.portresolution = false
  noCurses : st.options.noCurses = true
  screenfilter : st.options.screenfilter = none
  promiscuousButChoosy : st.options.promiscuousButChoosy = false
  -- only options have these
  historyDeleteInterval : st.options.historyDeleteInterval = (lastArg 't' opts).elim 0 atol
  threshold : st.options.threshold = (lastArg 'T' opts).elim 0 fun a => Int64.ofInt (atol a)
  duration : st.options.duration = (lastArg 'd' opts).elim 0 atoi
  sendInterval : st.options.sendInterval
    = (lastArg 'M' opts).elim 0 fun a => (atoi a * 60).bmod (2 ^ 32)
  blockProtocols : st.options.blockProtocols
    = (opts.filter fun o => o.letter = 'Z').foldl (fun array o => storeTokens array o.optarg)
        (List.replicate blockProtocolsLen (-1))
  mqttAddr : st.mqttAddr
    = (lastOpt (fun o => o.letter = 'M' || o.letter = 'B') opts).elim defaultBroker Opt.optarg
  portList : st.portList = (lastArg 'P' opts).elim (List.replicate portListLen 0)
    (storeTokens (List.replicate portListLen (-1)))

/-- What no option is for is fixed, or from the file. -/
theorem directive_eq (opts : List Opt) {d : CString} (hno : optionFor d = none) :
    h.directive opts d = (configGetString optionsSetDefaults.fixed.config d).or (h.fileValue d) := by
  have hnone : (opts.filter fun o => optionFor d = some o.letter) = [] := by simp [hno]
  rw [directive, lastOpt, hnone]
  rfl

theorem directive_fixed (opts : List Opt) {d v : CString} (hno : optionFor d = none)
    (hfixed : configGetString optionsSetDefaults.fixed.config d = some v) :
    h.directive opts d = some v := by
  rw [h.directive_eq opts hno, hfixed, Option.some_or]

theorem directive_file (opts : List Opt) {d : CString} (hno : optionFor d = none)
    (hfixed : configGetString optionsSetDefaults.fixed.config d = none) :
    h.directive opts d = h.fileValue d := by
  rw [h.directive_eq opts hno, hfixed, Option.none_or]

/-- A file has no value for a name that is no directive. -/
theorem fileValue_unknown {d : CString} (hd : d ∉ configDirectives) : h.fileValue d = none := by
  unfold fileValue readConfigFile
  cases h.files h.configFile with
  | error e => rfl
  | ok text => exact configGetString_readLines_unknown _ hd text 1 _

end Host

section Options

variable {s s' : Settings} {opts : List Opt}

/-- A part of the settings that some options write. -/
theorem part_after {β : Type} {p : Settings → β} {g : β → Opt → β} (writes : Opt → Bool)
    (hstep : ∀ s o, p (effect s o) = if writes o then g (p s) o else p s)
    (hrun : opts.foldlM readOpt s = .ok s') : p s' = (opts.filter writes).foldl g (p s) :=
  foldlM_part (fun s o s' h => by rw [readOpt_ok h, hstep]) hrun

/-- A part that the options with one letter write from their argument. -/
theorem last_after {β : Type} {p : Settings → β} {c : Char} {v : CString → β}
    (hstep : ∀ s o, p (effect s o) = if o.letter = c then v o.optarg else p s)
    (hrun : opts.foldlM readOpt s = .ok s') : p s' = (lastArg c opts).elim (p s) v := by
  have hpart := part_after (p := p) (g := fun _ o => v o.optarg) (fun o => o.letter = c)
    (fun s o => by simp only [hstep, decide_eq_true_eq]) hrun
  rw [hpart, foldl_last, lastArg, lastOpt, Option.elim_map]
  rfl

theorem directive_after (d : CString) (hrun : opts.foldlM readOpt s = .ok s') :
    configGetString s'.config d
      = ((lastOpt (fun o => optionFor d = some o.letter) opts).map Opt.value).or
          (configGetString s.config d) := by
  have hpart := part_after (p := fun s => configGetString s.config d)
    (g := fun _ o => some o.value) (fun o => optionFor d = some o.letter)
    (fun s o => by
      simp only [decide_eq_true_eq]
      exact configGetString_store o s.config d) hrun
  rw [hpart, foldl_last, lastOpt]
  cases (opts.filter fun o => optionFor d = some o.letter).getLast? <;> rfl

/-- The numbers that the options write, and the blocked protocols. -/
theorem counts_after (hrun : opts.foldlM readOpt optionsSetDefaults.fixed = .ok s) :
    s.options.historyDeleteInterval = (lastArg 't' opts).elim 0 atol ∧
    s.options.threshold = (lastArg 'T' opts).elim 0 (fun a => Int64.ofInt (atol a)) ∧
    s.options.duration = (lastArg 'd' opts).elim 0 atoi ∧
    s.options.sendInterval
      = (lastArg 'M' opts).elim 0 (fun a => (atoi a * 60).bmod (2 ^ 32)) ∧
    s.options.blockProtocols
      = (opts.filter fun o => o.letter = 'Z').foldl (fun array o => storeTokens array o.optarg)
          (List.replicate blockProtocolsLen (-1)) := by
  refine ⟨?_, ?_, ?_, ?_, ?_⟩
  · exact last_after (p := fun s => s.options.historyDeleteInterval) (fun _ _ => rfl) hrun
  · exact last_after (p := fun s => s.options.threshold) (c := 'T')
      (v := fun a => Int64.ofInt (atol a)) (fun _ _ => rfl) hrun
  · exact last_after (p := fun s => s.options.duration) (fun _ _ => rfl) hrun
  · exact last_after (p := fun s => s.options.sendInterval) (c := 'M')
      (v := fun a => (atoi a * 60).bmod (2 ^ 32)) (fun _ _ => rfl) hrun
  · exact part_after (p := fun s => s.options.blockProtocols)
      (g := fun array o => storeTokens array o.optarg) (fun o => o.letter = 'Z')
      (fun s o => by simp only [effect, decide_eq_true_eq]) hrun

/-- The broker and the ignored ports. -/
theorem lists_after (hrun : opts.foldlM readOpt optionsSetDefaults.fixed = .ok s) :
    s.mqttAddr
      = (lastOpt (fun o => o.letter = 'M' || o.letter = 'B') opts).elim defaultBroker Opt.optarg ∧
    s.portList = (lastArg 'P' opts).elim (List.replicate portListLen 0)
      (storeTokens (List.replicate portListLen (-1))) := by
  have hbroker := part_after (p := Settings.mqttAddr) (g := fun _ o => o.optarg)
    (fun o => o.letter = 'M' || o.letter = 'B')
    (fun s o => by simp only [effect, Bool.or_eq_true, decide_eq_true_eq]) hrun
  rw [foldl_last] at hbroker
  exact ⟨hbroker, last_after (p := Settings.portList) (fun _ _ => rfl) hrun⟩

/-- No option writes these. -/
theorem unset_after (hrun : opts.foldlM readOpt optionsSetDefaults.fixed = .ok s) :
    s.options.promiscuousButChoosy = false ∧ s.options.netfilter = false :=
  ⟨foldlM_frame (p := fun s : Settings => s.options.promiscuousButChoosy)
      (fun s s' o _ h => by rw [readOpt_ok h]; rfl) hrun,
    foldlM_frame (p := fun s : Settings => s.options.netfilter)
      (fun s s' o _ h => by rw [readOpt_ok h]; rfl) hrun⟩

/-- **The file is read behind the options.** -/
theorem Host.configGetString_read (h : Host)
    (hrun : opts.foldlM readOpt optionsSetDefaults.fixed = .ok s) (d : CString) :
    configGetString (readConfigFile h.configFile false (h.files h.configFile) s.config).2.config d
      = h.directive opts d := by
  rw [directive, ← Option.or_assoc, ← directive_after d hrun, fileValue]
  cases h.files h.configFile with
  | error e => exact (Option.or_none).symm
  | ok text => exact configGetString_readLines _ d text 1 _

end Options

section Accessors

variable (config : StringMap)

theorem getString_value (name : CString) (value : Option CString) :
    (optionsConfigGetString config name value).value = (configGetString config name).or value := by
  unfold optionsConfigGetString
  cases configGetString config name <;> rfl

theorem getBool_value (name : CString) (value : Bool) :
    (optionsConfigGetBool config name value).value
      = (configGetString config name).elim value isOn := by
  unfold optionsConfigGetBool configGetBool isOn
  cases configGetString config name with
  | none => rfl
  | some s => simp

theorem getPromiscuous_value :
    (optionsConfigGetPromiscuous config (false, false)).value
      = ((configGetString config "promiscuous".toList).any isOn, false) := by
  unfold optionsConfigGetPromiscuous configGetBool isOn
  cases configGetString config "promiscuous".toList with
  | none => rfl
  | some s => simp

theorem getInt_value (name : CString) (value : Int) :
    (optionsConfigGetInt config name value).value
      = ((configGetString config name).filter fun s => s ≠ []).elim value atoi := by
  unfold optionsConfigGetInt configGetInt
  cases configGetString config name with
  | none => rfl
  | some s =>
    by_cases hs : s = []
    · simp [hs, Option.filter]
    · by_cases hrest : strtolRest s = [] <;> simp [hs, hrest, Option.filter]

/-- The net filter leaves the other options alone. -/
theorem netFilter_frame (inet : Inet) (left : Leftovers) (o : Options) :
    { (optionsConfigGetNetFilter config inet left o).value with
      netfilter := o.netfilter, netfilternet := o.netfilternet, netfiltermask := o.netfiltermask }
      = o := by
  unfold optionsConfigGetNetFilter
  split
  next => rfl
  next =>
    dsimp only
    split
    next => rfl
    next =>
      split
      next => rfl
      next =>
        split
        next => split <;> rfl
        next => split <;> rfl

end Accessors

/-- The words, and the settings after the options. -/
theorem startUp_ok {inet : Inet} {left : Leftovers} {h : Host} {st : Started}
    (hst : startUp inet left h = .ok st) :
    ∃ words opts s, h.words = .ok words ∧ getopt words = (opts, []) ∧
      opts.foldlM readOpt optionsSetDefaults.fixed = .ok s ∧
      st.config = (readConfigFile h.configFile false (h.files h.configFile) s.config).2.config ∧
      st.options = (optionsMake inet left st.config
        { makeDefaults with toOptions := s.options, interface := some h.interface }).options ∧
      st.mqttAddr = s.mqttAddr ∧ st.portList = s.portList := by
  obtain ⟨words, hwords, hst⟩ := bind_ok.mp hst
  obtain ⟨s, hs, hst⟩ := bind_ok.mp hst
  cases hst
  obtain ⟨s', hrun, hrest⟩ := bind_ok.mp hs
  split at hrest
  next hnil =>
    cases hrest
    exact ⟨words, (getopt words).1, s, hwords, Prod.ext rfl hnil, hrun, rfl, rfl, rfl, rfl⟩
  next => cases hrest

/-- **What every setting is**, whatever the words and the files are. -/
theorem startUp_settled {inet : Inet} {left : Leftovers} {h : Host} {st : Started}
    (hst : startUp inet left h = .ok st) :
    ∃ words opts, h.words = .ok words ∧ getopt words = (opts, []) ∧ h.Settled opts st := by
  obtain ⟨words, opts, s, hwords, hopts, hrun, hconfig, hmake, haddr, hports⟩ := startUp_ok hst
  refine ⟨words, opts, hwords, hopts, ?_⟩
  have hdir : ∀ d, configGetString st.config d = h.directive opts d := by
    intro d
    rw [hconfig, h.configGetString_read hrun]
  obtain ⟨hinterval, hthreshold, hduration, hsend, hblock⟩ := counts_after hrun
  obtain ⟨hbroker, hlist⟩ := lists_after hrun
  obtain ⟨hchoosy, hfilter⟩ := unset_after hrun
  have hframe := netFilter_frame st.config inet left
    { s.options with promiscuousButChoosy :=
        (optionsConfigGetPromiscuous st.config (false, s.options.promiscuousButChoosy)).value.2 }
  exact
    { directives := hdir
      interface := by
        rw [hmake]
        show (optionsConfigGetString st.config _ _).value = _
        rw [getString_value, hdir]
        cases h.directive opts "interface".toList <;> rfl
      filtercode := by
        rw [hmake]
        show (optionsConfigGetString st.config _ _).value = _
        rw [getString_value, hdir]
        exact Option.or_none
      promiscuous := by
        rw [hmake]
        show (optionsConfigGetPromiscuous st.config (false, s.options.promiscuousButChoosy)).value.1
          = _
        rw [hchoosy, getPromiscuous_value, hdir]
      netfilter := by
        intro hnone
        rw [← hdir] at hnone
        rw [hmake]
        show (optionsConfigGetNetFilter st.config inet left _).value.netfilter = false
        rw [optionsConfigGetNetFilter, hnone]
        exact hfilter
      timedOutput := by
        rw [hmake]
        show (optionsConfigGetInt st.config "timed-output".toList 0).value = _
        rw [getInt_value, hdir, h.directive_file opts (by decide) (by decide)]
      dnsresolution := by
        rw [hmake]
        show (optionsConfigGetBool st.config _ _).value = _
        rw [getBool_value, hdir, h.directive_fixed opts (v := "false".toList) (by decide) (by decide)]
        rfl
      portresolution := by
        rw [hmake]
        show (optionsConfigGetBool st.config _ _).value = _
        rw [getBool_value, hdir, h.directive_fixed opts (v := "false".toList) (by decide) (by decide)]
        rfl
      noCurses := by
        rw [hmake]
        show (optionsConfigGetBool st.config _ _).value = _
        rw [getBool_value, hdir, h.directive_fixed opts (v := "true".toList) (by decide) (by decide)]
        rfl
      screenfilter := by
        rw [hmake]
        show (optionsConfigGetString st.config _ _).value = _
        rw [getString_value, hdir, h.directive_file opts (by decide) (by decide),
          h.fileValue_unknown (by decide)]
        rfl
      promiscuousButChoosy := by
        rw [hmake]
        refine (congrArg Options.promiscuousButChoosy hframe).trans ?_
        show (optionsConfigGetPromiscuous st.config (false, s.options.promiscuousButChoosy)).value.2
          = _
        rw [hchoosy, getPromiscuous_value]
      historyDeleteInterval := by
        rw [hmake]
        exact (congrArg Options.historyDeleteInterval hframe).trans hinterval
      threshold := by
        rw [hmake]
        exact (congrArg Options.threshold hframe).trans hthreshold
      duration := by
        rw [hmake]
        exact (congrArg Options.duration hframe).trans hduration
      sendInterval := by
        rw [hmake]
        exact (congrArg Options.sendInterval hframe).trans hsend
      blockProtocols := by
        rw [hmake]
        exact (congrArg Options.blockProtocols hframe).trans hblock
      mqttAddr := haddr.trans hbroker
      portList := hports.trans hlist }

/-- A host with a configuration file that asks for what is fixed. -/
def laptop : Host where
  nameindex := some ["lo".toList, "wlan0".toList]
  usable := fun _ => true
  home := some "/root".toList
  files := fun name =>
    if strcmp name "/root/.iftoprc".toList = .eq then
      .ok "dns-resolution: yes\ninterface: eth1\n".toList
    else .error "No such file or directory".toList
  stack := cleared
  argv := ["-d".toList, "5".toList, "-i".toList, "eth2".toList, "-d".toList, "6".toList]

theorem startUp_settled_laptop : ∃ st, startUp quadsOnly ⟨0, 0⟩ laptop = .ok st ∧
    ∃ words opts, laptop.words = .ok words ∧ getopt words = (opts, []) ∧ laptop.Settled opts st :=
  ⟨_, rfl, startUp_settled rfl⟩

end Dotqoo.Config
