import Mathlib.Data.List.Nodup
import Dotqoo.Config.Args

/-!
# The order of the options

Options with pairwise different letters should mean the same in every order:
each sets its own part of the settings. `intended` says what that is, part by
part, and `OrderFree` that every spelling of every order ends there.

The `M` case of the switch has no `break`, so `-M` also copies its minutes over
the broker address. `orderFree_iff` says that this is the only way one option
reaches into another's part: the order is free exactly when the argument of
`-M`, if it is there, happens to be the broker address itself. (With `-h` the
program exits before anything is used, as long as the argument fits into the
address buffer.)
-/

namespace Dotqoo.Config

open Dotqoo.Capture Dotqoo.Lib

/-- The directive an option writes. -/
def directiveOf (letter : Char) : Option CString :=
  match letter with
  | 'i' => some "interface".toList
  | 'f' => some "filter-code".toList
  | 'p' => some "promiscuous".toList
  | 'F' => some "net-filter".toList
  | _ => none

/-- The option that writes a directive. -/
def optionFor (directive : CString) : Option Char :=
  if directive = "interface".toList then some 'i'
  else if directive = "filter-code".toList then some 'f'
  else if directive = "promiscuous".toList then some 'p'
  else if directive = "net-filter".toList then some 'F'
  else none

theorem directiveOf_eq_some {letter : Char} {d : CString} :
    directiveOf letter = some d ↔ optionFor d = some letter := by
  constructor
  · intro h
    unfold directiveOf at h
    split at h
    case h_5 => cases h
    all_goals cases h; decide
  · intro h
    unfold optionFor at h
    split_ifs at h with hi hf hp hF
    all_goals cases h
    · rw [hi]; rfl
    · rw [hf]; rfl
    · rw [hp]; rfl
    · rw [hF]; rfl

/-- The value an option writes under its directive. -/
def Opt.value (o : Opt) : CString := if o.letter = 'p' then "true".toList else o.optarg

/-- The configuration after an option. -/
def Opt.store (o : Opt) (config : StringMap) : StringMap :=
  match directiveOf o.letter with
  | some d => configSetString config d o.value
  | none => config

/-- What an option does to the settings, one part at a time. -/
def effect (s : Settings) (o : Opt) : Settings where
  options :=
    { s.options with
      historyDeleteInterval :=
        if o.letter = 't' then atol o.optarg else s.options.historyDeleteInterval
      threshold := if o.letter = 'T' then Int64.ofInt (atol o.optarg) else s.options.threshold
      duration := if o.letter = 'd' then atoi o.optarg else s.options.duration
      blockProtocols :=
        if o.letter = 'Z' then storeTokens s.options.blockProtocols o.optarg
        else s.options.blockProtocols
      sendInterval :=
        if o.letter = 'M' then (atoi o.optarg * 60).bmod (2 ^ 32) else s.options.sendInterval }
  mqttAddr := if o.letter = 'M' ∨ o.letter = 'B' then o.optarg else s.mqttAddr
  portList :=
    if o.letter = 'P' then storeTokens (List.replicate portListLen (-1)) o.optarg else s.portList
  config := o.store s.config

theorem copyAddr_ok {s s' : Settings} {optarg : CString} (h : s.copyAddr optarg = .ok s') :
    s' = { s with mqttAddr := optarg } := by
  unfold Settings.copyAddr at h
  split at h
  next => cases h; rfl
  next => cases h

theorem readOpt_ok {s s' : Settings} {o : Opt} (h : readOpt s o = .ok s') : s' = effect s o := by
  unfold readOpt at h
  split at h
  case h_13 hM => rw [copyAddr_ok h]; simp [effect, Opt.store, directiveOf, hM]
  case h_14 hB => rw [copyAddr_ok h]; simp [effect, Opt.store, directiveOf, hB]
  case h_8 hP =>
    split at h
    next => cases h; simp [effect, Opt.store, directiveOf, hP]
    next => cases h
  case h_12 hZ =>
    split at h
    next => cases h; simp [effect, Opt.store, directiveOf, hZ]
    next => cases h
  all_goals cases h
  case h_15 =>
    simp_all [effect, Opt.store, directiveOf]
  all_goals simp [effect, Opt.store, directiveOf, Settings.setString, Opt.value, *]

/-- What is under a directive after an option. -/
theorem configGetString_store (o : Opt) (config : StringMap) (d : CString) :
    configGetString (o.store config) d =
      if optionFor d = some o.letter then some o.value else configGetString config d := by
  unfold Opt.store
  cases hd : directiveOf o.letter with
  | none =>
    have hne : optionFor d ≠ some o.letter := by
      intro h
      rw [directiveOf_eq_some.mpr h] at hd
      cases hd
    rw [if_neg hne]
  | some k =>
    have hiff : optionFor d = some o.letter ↔ d = k := by
      rw [← directiveOf_eq_some, hd, Option.some.injEq]
      exact eq_comm
    simp only [configGetString_set, hiff]

/-! ## What the options mean -/

/-- The argument of the option with a letter. -/
def argOf (c : Char) (opts : List Opt) : Option CString :=
  (chosen Opt.letter c opts).map Opt.optarg

/-- The settings as the rest of the program sees them: of the configuration, what
is found under each directive. -/
structure View where
  options : Options
  mqttAddr : CString
  portList : List Int
  entries : CString → Option CString

def Settings.view (s : Settings) : View :=
  ⟨s.options, s.mqttAddr, s.portList, configGetString s.config⟩

/-- Every part of the settings as its own option sets it, or as it was. -/
def intended (s : Settings) (opts : List Opt) : View where
  options :=
    { s.options with
      historyDeleteInterval := (argOf 't' opts).elim s.options.historyDeleteInterval atol
      threshold := (argOf 'T' opts).elim s.options.threshold fun a => Int64.ofInt (atol a)
      duration := (argOf 'd' opts).elim s.options.duration atoi
      blockProtocols := (argOf 'Z' opts).elim s.options.blockProtocols
        (storeTokens s.options.blockProtocols)
      sendInterval := (argOf 'M' opts).elim s.options.sendInterval
        fun a => (atoi a * 60).bmod (2 ^ 32) }
  mqttAddr := (argOf 'B' opts).getD s.mqttAddr
  portList := (argOf 'P' opts).elim s.portList (storeTokens (List.replicate portListLen (-1)))
  entries := fun d =>
    match optionFor d with
    | none => configGetString s.config d
    | some c => (chosen Opt.letter c opts).elim (configGetString s.config d) fun o => some o.value

theorem argOf_perm {c : Char} {opts opts' : List Opt} (hnd : (opts.map Opt.letter).Nodup)
    (hp : opts'.Perm opts) : argOf c opts' = argOf c opts := by
  rw [argOf, argOf, chosen_perm hnd hp]

theorem intended_perm {s : Settings} {opts opts' : List Opt} (hnd : (opts.map Opt.letter).Nodup)
    (hp : opts'.Perm opts) : intended s opts' = intended s opts := by
  simp only [intended, argOf_perm hnd hp, chosen_perm hnd hp]

/-! ## Where the settings end up -/

section After

variable {s s' : Settings} {opts : List Opt}

/-- A part of the settings that one option writes from its argument. -/
theorem field_after {β : Type} {p : Settings → β} {c : Char} {g : β → CString → β}
    (hstep : ∀ s o, p (effect s o) = if o.letter = c then g (p s) o.optarg else p s)
    (hnd : (opts.map Opt.letter).Nodup) (h : opts.foldlM readOpt s = .ok s') :
    p s' = (argOf c opts).elim (p s) (g (p s)) := by
  have hfield := foldlM_field (p := p) (c := c) (g := fun b o => g b o.optarg) hnd
    (fun s o s' h => by rw [readOpt_ok h, hstep]) h
  rw [hfield, argOf, Option.elim_map]
  rfl

theorem entry_after (hnd : (opts.map Opt.letter).Nodup) (h : opts.foldlM readOpt s = .ok s')
    (d : CString) : configGetString s'.config d = (intended s opts).entries d := by
  have hstep : ∀ s o s', readOpt s o = .ok s' → configGetString s'.config d =
      if optionFor d = some o.letter then some o.value else configGetString s.config d := by
    intro s o s' h
    rw [readOpt_ok h]
    exact configGetString_store o s.config d
  simp only [intended]
  cases hd : optionFor d with
  | none =>
    simp only [hd, reduceCtorEq, if_false] at hstep
    exact foldlM_frame (p := fun s => configGetString s.config d)
      (fun s s' o _ => hstep s o s') h
  | some c =>
    simp only [hd, Option.some.injEq, eq_comm (a := c)] at hstep
    exact foldlM_field (p := fun s => configGetString s.config d) (g := fun _ o => some o.value)
      hnd hstep h

/-- When -M and -B, as far as they are there, have one argument. -/
theorem mqttAddr_after {v : CString}
    (hsame : ∀ o ∈ opts, o.letter = 'M' ∨ o.letter = 'B' → o.optarg = v)
    (h : opts.foldlM readOpt s = .ok s') :
    s'.mqttAddr = if ∃ o ∈ opts, o.letter = 'M' ∨ o.letter = 'B' then v else s.mqttAddr := by
  refine foldlM_shared (p := Settings.mqttAddr) ?_ h
  intro s s' o ho h
  rw [readOpt_ok h]
  by_cases hw : o.letter = 'M' ∨ o.letter = 'B'
  · simp [effect, hw, hsame o ho hw]
  · simp [effect, hw]

/-- Everything but the address always ends up as intended. -/
theorem view_after (hnd : (opts.map Opt.letter).Nodup) (h : opts.foldlM readOpt s = .ok s') :
    s'.view = { intended s opts with mqttAddr := s'.mqttAddr } := by
  have hinterval := field_after (p := fun s => s.options.historyDeleteInterval) (c := 't')
    (g := fun _ => atol) (fun _ _ => rfl) hnd h
  have hthreshold := field_after (p := fun s => s.options.threshold) (c := 'T')
    (g := fun _ a => Int64.ofInt (atol a)) (fun _ _ => rfl) hnd h
  have hduration := field_after (p := fun s => s.options.duration) (c := 'd')
    (g := fun _ => atoi) (fun _ _ => rfl) hnd h
  have hprotocols := field_after (p := fun s => s.options.blockProtocols) (c := 'Z')
    (g := storeTokens) (fun _ _ => rfl) hnd h
  have hsend := field_after (p := fun s => s.options.sendInterval) (c := 'M')
    (g := fun _ a => (atoi a * 60).bmod (2 ^ 32)) (fun _ _ => rfl) hnd h
  have hports := field_after (p := Settings.portList) (c := 'P')
    (g := fun _ => storeTokens (List.replicate portListLen (-1))) (fun _ _ => rfl) hnd h
  have hrest := foldlM_frame (p := fun s : Settings => (s.options.promiscuousButChoosy,
    s.options.netfilter, s.options.netfilternet, s.options.netfiltermask))
    (fun s s' o _ h => by rw [readOpt_ok h]; rfl) h
  have hentries : configGetString s'.config = (intended s opts).entries :=
    funext (entry_after hnd h)
  simp only [Prod.mk.injEq] at hrest
  obtain ⟨hchoosy, hnet, hip, hmask⟩ := hrest
  have hoptions : s'.options = (intended s opts).options := by
    calc s'.options = ⟨s'.options.promiscuousButChoosy, s'.options.netfilter,
          s'.options.netfilternet, s'.options.netfiltermask, s'.options.historyDeleteInterval,
          s'.options.threshold, s'.options.duration, s'.options.blockProtocols,
          s'.options.sendInterval⟩ := rfl
      _ = (intended s opts).options := by
        rw [hchoosy, hnet, hip, hmask, hinterval, hthreshold, hduration, hprotocols, hsend]
        rfl
  rw [Settings.view, hoptions, hports, hentries]
  rfl

end After

/-! ## The order of the options is free -/

/-- An argument the handler of its option can take. -/
structure Opt.WellFormed (o : Opt) : Prop where
  listed : o.Listed
  ports : o.letter = 'P' → tokensFit portListLen o.optarg = true
  protocols : o.letter = 'Z' → tokensFit blockProtocolsLen o.optarg = true
  broker : o.letter = 'B' → o.optarg.length < mqttAddrSize

instance (o : Opt) : Decidable o.Listed := inferInstanceAs (Decidable (_ ∨ _))

instance (o : Opt) : Decidable o.WellFormed :=
  decidable_of_iff (o.Listed ∧ (o.letter = 'P' → tokensFit portListLen o.optarg = true) ∧
      (o.letter = 'Z' → tokensFit blockProtocolsLen o.optarg = true) ∧
      (o.letter = 'B' → o.optarg.length < mqttAddrSize))
    ⟨fun ⟨hl, hp, hz, hb⟩ => ⟨hl, hp, hz, hb⟩,
      fun h => ⟨h.listed, h.ports, h.protocols, h.broker⟩⟩

/-- Every spelling of every order of the options ends with the same settings, and
these are what the options mean. With `-h` every one exits. -/
def OrderFree (argv : List CString) (opts : List Opt) : Prop :=
  (∀ argv' opts', getopt argv' = (opts', []) → opts'.Perm opts →
    (optionsReadArgs optionsSetDefaults none argv').map Settings.view =
      (optionsReadArgs optionsSetDefaults none argv).map Settings.view) ∧
  (∀ s, optionsReadArgs optionsSetDefaults none argv = .ok s →
    s.view = intended optionsSetDefaults.fixed opts) ∧
  optionsReadArgs optionsSetDefaults none argv ≠ .error .undefined

/-- The argument of `-M` is the broker address, or `-h` is there and it fits. -/
def MinutesSpellBroker (opts : List Opt) : Prop :=
  ∀ a, argOf 'M' opts = some a →
    a = (argOf 'B' opts).getD defaultBroker ∨
    (argOf 'h' opts).isSome ∧ a.length < mqttAddrSize

instance (opts : List Opt) : Decidable (MinutesSpellBroker opts) :=
  match h : argOf 'M' opts with
  | none => isTrue (fun a ha => by rw [h] at ha; cases ha)
  | some a =>
    decidable_of_iff (a = (argOf 'B' opts).getD defaultBroker ∨
        (argOf 'h' opts).isSome ∧ a.length < mqttAddrSize)
      ⟨fun hc a' ha => by rw [h] at ha; cases ha; exact hc, fun hc => hc a h⟩

theorem optionsReadArgs_of_getopt {s : Settings} {argv : List CString} {opts : List Opt}
    (h : getopt argv = (opts, [])) :
    optionsReadArgs s none argv = opts.foldlM readOpt s.fixed := by
  unfold optionsReadArgs
  simp only [Option.getD_none, h, if_true]
  cases opts.foldlM readOpt s.fixed with
  | error e => rfl
  | ok s' => rfl

/-- One option: it is `-h`, or it is handled. -/
theorem readOpt_outcome {o : Opt} (hwf : o.WellFormed)
    (hM : o.letter = 'M' → o.optarg.length < mqttAddrSize) (s : Settings) :
    o.letter = 'h' ∧ readOpt s o = .error (.exit 0) ∨
      o.letter ≠ 'h' ∧ ∃ s', readOpt s o = .ok s' := by
  have hlisted : takesArg o.letter optstr ≠ none := by
    intro hnone
    rcases hwf.listed with h | ⟨h, _⟩
    · rw [hnone] at h; cases h
    · rw [hnone] at h; cases h
  by_cases hh : o.letter = 'h'
  · exact Or.inl ⟨hh, by simp [readOpt, hh]⟩
  · refine Or.inr ⟨hh, ?_⟩
    unfold readOpt
    split
    case h_1 h => exact absurd h hh
    case h_6 h => exact absurd (by rw [h]; decide) hlisted
    case h_7 h => exact absurd (by rw [h]; decide) hlisted
    case h_8 h => rw [if_pos (hwf.ports h)]; exact ⟨_, rfl⟩
    case h_12 h => rw [if_pos (hwf.protocols h)]; exact ⟨_, rfl⟩
    case h_13 h => simp only [Settings.copyAddr, if_pos (hM h)]; exact ⟨_, rfl⟩
    case h_14 h => rw [Settings.copyAddr, if_pos (hwf.broker h)]; exact ⟨_, rfl⟩
    all_goals exact ⟨_, rfl⟩

section Orders

variable {opts : List Opt}

theorem argOf_of_mem (hnd : (opts.map Opt.letter).Nodup) {o : Opt} (ho : o ∈ opts) :
    argOf o.letter opts = some o.optarg := by
  rw [argOf, (chosen_eq_some hnd).mpr ⟨ho, rfl⟩]
  rfl

/-- Without `-h`, and if every argument can be taken, the options are all handled. -/
theorem foldlM_readOpt_ok (hwf : ∀ o ∈ opts, o.WellFormed)
    (hM : ∀ o ∈ opts, o.letter = 'M' → o.optarg.length < mqttAddrSize)
    (hh : chosen Opt.letter 'h' opts = none) (s : Settings) :
    ∃ s', opts.foldlM readOpt s = .ok s' := by
  apply foldlM_ok
  intro o ho s
  rcases readOpt_outcome (hwf o ho) (hM o ho) s with ⟨hletter, _⟩ | ⟨_, hok⟩
  · exact absurd hletter (chosen_eq_none.mp hh o ho)
  · exact hok

/-- With `-h`, and if every argument can be taken, the program exits. -/
theorem foldlM_readOpt_exit (hwf : ∀ o ∈ opts, o.WellFormed)
    (hM : ∀ o ∈ opts, o.letter = 'M' → o.optarg.length < mqttAddrSize)
    {oh : Opt} (hh : chosen Opt.letter 'h' opts = some oh) (s : Settings) :
    opts.foldlM readOpt s = .error (.exit 0) := by
  obtain ⟨hmem, hletter⟩ := chosen_spec hh
  apply foldlM_error
  · intro o ho s
    rcases readOpt_outcome (hwf o ho) (hM o ho) s with ⟨_, herr⟩ | ⟨_, hok⟩
    · exact Or.inl herr
    · exact Or.inr hok
  · refine ⟨oh, hmem, fun s => ?_⟩
    simp [readOpt, hletter]

/-- When `-M` spells the broker, the address ends up as intended too. -/
theorem mqttAddr_intended {s s' : Settings} (hnd : (opts.map Opt.letter).Nodup)
    (hs : s.mqttAddr = defaultBroker)
    (hM : ∀ a, argOf 'M' opts = some a → a = (argOf 'B' opts).getD defaultBroker)
    (h : opts.foldlM readOpt s = .ok s') : s'.mqttAddr = (intended s opts).mqttAddr := by
  have hsame : ∀ o ∈ opts, o.letter = 'M' ∨ o.letter = 'B' →
      o.optarg = (argOf 'B' opts).getD defaultBroker := by
    intro o ho hletter
    have harg := argOf_of_mem hnd ho
    rcases hletter with hl | hl
    · rw [hl] at harg
      exact hM _ harg
    · rw [hl] at harg
      rw [harg, Option.getD_some]
  rw [mqttAddr_after hsame h]
  simp only [intended, hs]
  split
  next => rfl
  next hno =>
    have hB : argOf 'B' opts = none := by
      rw [argOf, Option.map_eq_none_iff, chosen_eq_none]
      intro o ho hl
      exact hno ⟨o, ho, Or.inr hl⟩
    rw [hB, Option.getD_none]

end Orders

/-- What the options come to when `-M` does no harm. -/
theorem outcome_of_minutes {opts : List Opt} (hnd : (opts.map Opt.letter).Nodup)
    (hwf : ∀ o ∈ opts, o.WellFormed) (hM : MinutesSpellBroker opts) {s : Settings}
    (hs : s.mqttAddr = defaultBroker) :
    (argOf 'h' opts).isSome ∧ opts.foldlM readOpt s = .error (.exit 0) ∨
      argOf 'h' opts = none ∧ ∃ s', opts.foldlM readOpt s = .ok s' ∧ s'.view = intended s opts := by
  have hbroker : ((argOf 'B' opts).getD defaultBroker).length < mqttAddrSize := by
    cases hB : chosen Opt.letter 'B' opts with
    | none => simp only [argOf, hB]; decide
    | some o =>
      obtain ⟨hmem, hletter⟩ := chosen_spec hB
      simp only [argOf, hB]
      exact (hwf o hmem).broker hletter
  have hfits : ∀ o ∈ opts, o.letter = 'M' → o.optarg.length < mqttAddrSize := by
    intro o ho hletter
    have harg := argOf_of_mem hnd ho
    rw [hletter] at harg
    rcases hM _ harg with heq | ⟨_, hlt⟩
    · rw [heq]; exact hbroker
    · exact hlt
  cases hh : chosen Opt.letter 'h' opts with
  | some oh =>
    exact Or.inl ⟨by simp [argOf, hh], foldlM_readOpt_exit hwf hfits hh s⟩
  | none =>
    have hnone : argOf 'h' opts = none := by simp [argOf, hh]
    obtain ⟨s', hs'⟩ := foldlM_readOpt_ok hwf hfits hh s
    refine Or.inr ⟨hnone, s', hs', ?_⟩
    have haddr := mqttAddr_intended hnd hs (fun a ha => ?_) hs'
    · rw [view_after hnd hs', haddr]
    · rcases hM a ha with heq | ⟨hsome, _⟩
      · exact heq
      · rw [hnone] at hsome
        cases hsome

theorem MinutesSpellBroker.perm {opts opts' : List Opt} (hnd : (opts.map Opt.letter).Nodup)
    (hp : opts'.Perm opts) (hM : MinutesSpellBroker opts) : MinutesSpellBroker opts' := by
  intro a ha
  rw [argOf_perm hnd hp] at ha
  rw [argOf_perm hnd hp, argOf_perm hnd hp]
  exact hM a ha

theorem orderFree_of_minutes {argv : List CString} {opts : List Opt}
    (hread : getopt argv = (opts, [])) (hnd : (opts.map Opt.letter).Nodup)
    (hwf : ∀ o ∈ opts, o.WellFormed) (hM : MinutesSpellBroker opts) : OrderFree argv opts := by
  have hdefault : optionsSetDefaults.fixed.mqttAddr = defaultBroker := rfl
  have hout := outcome_of_minutes hnd hwf hM hdefault
  rw [OrderFree, optionsReadArgs_of_getopt hread]
  refine ⟨?_, ?_, ?_⟩
  · intro argv' opts' hread' hp
    have hnd' : (opts'.map Opt.letter).Nodup := (hp.map _).nodup_iff.mpr hnd
    have hout' := outcome_of_minutes hnd' (fun o ho => hwf o (hp.mem_iff.mp ho)) (hM.perm hnd hp)
      hdefault
    rw [argOf_perm hnd hp, intended_perm hnd hp] at hout'
    rw [optionsReadArgs_of_getopt hread']
    rcases hout with ⟨hh, h⟩ | ⟨hh, s, h, hv⟩
    · rcases hout' with ⟨_, h'⟩ | ⟨hh', _⟩
      · rw [h, h']
      · rw [hh'] at hh
        cases hh
    · rcases hout' with ⟨hh', _⟩ | ⟨_, s', h', hv'⟩
      · rw [hh] at hh'
        cases hh'
      · simp only [h, h', Except.map, hv, hv']
  · intro s hs
    rcases hout with ⟨_, h⟩ | ⟨_, s', h, hv⟩
    · rw [h] at hs
      cases hs
    · rw [h] at hs
      cases hs
      exact hv
  · rcases hout with ⟨_, h⟩ | ⟨_, s', h, _⟩
    · rw [h]
      intro hbad
      cases hbad
    · rw [h]
      intro hbad
      cases hbad

/-! ## `-M` first and `-M` last -/

/-- A list with the option `o` moved to the front. -/
theorem perm_first {opts : List Opt} {o : Opt} (ho : o ∈ opts) :
    (o :: opts.erase o).Perm opts := (List.perm_cons_erase ho).symm

/-- The options of any order, spelled out, are read as that order. -/
theorem getopt_flatMap_spell {opts : List Opt} (hwf : ∀ o ∈ opts, o.WellFormed) :
    getopt (opts.flatMap Opt.spell) = (opts, []) := by
  have h := getopt_spell [] (fun o ho => (hwf o ho).listed)
  simpa [getopt] using h

/-- An argument of `-M` that does not fit into the buffer, when `-M` comes first. -/
theorem foldlM_minutes_first {o : Opt} {opts : List Opt} (hM : o.letter = 'M')
    (hlong : mqttAddrSize ≤ o.optarg.length) (s : Settings) :
    (o :: opts).foldlM readOpt s = .error .undefined := by
  have hstop : readOpt s o = .error .undefined := by
    have hnot : ¬ o.optarg.length < mqttAddrSize := by omega
    simp [readOpt, hM, Settings.copyAddr, hnot]
  rw [List.foldlM_cons, hstop]
  rfl

/-- When `-M` comes last, its argument is the address. -/
theorem foldlM_minutes_last {o : Opt} {opts : List Opt} (hM : o.letter = 'M') {s s' : Settings}
    (h : (opts ++ [o]).foldlM readOpt s = .ok s') : s'.mqttAddr = o.optarg := by
  rw [List.foldlM_append] at h
  cases ht : opts.foldlM readOpt s with
  | error e => rw [ht] at h; cases h
  | ok t =>
    rw [ht] at h
    obtain ⟨t', ht', hnil⟩ := foldlM_cons_ok.mp h
    cases hnil
    rw [readOpt_ok ht']
    simp [effect, hM]

theorem minutes_of_orderFree {argv : List CString} {opts : List Opt}
    (hread : getopt argv = (opts, [])) (hnd : (opts.map Opt.letter).Nodup)
    (hwf : ∀ o ∈ opts, o.WellFormed) (hfree : OrderFree argv opts) : MinutesSpellBroker opts := by
  obtain ⟨hsame, hown, hdefined⟩ := hfree
  rw [optionsReadArgs_of_getopt hread] at hsame hown hdefined
  -- whatever the order, the outcome is the one of the list itself
  have horder : ∀ opts' : List Opt, opts'.Perm opts →
      (opts'.foldlM readOpt optionsSetDefaults.fixed).map Settings.view =
        (opts.foldlM readOpt optionsSetDefaults.fixed).map Settings.view := by
    intro opts' hp
    have hwf' : ∀ o ∈ opts', o.WellFormed := fun o ho => hwf o (hp.mem_iff.mp ho)
    have h := hsame _ _ (getopt_flatMap_spell hwf') hp
    rwa [optionsReadArgs_of_getopt (getopt_flatMap_spell hwf')] at h
  intro a ha
  obtain ⟨o, ho, rfl⟩ := Option.map_eq_some_iff.mp ha
  obtain ⟨hmem, hletter⟩ := chosen_spec ho
  have hfits : o.optarg.length < mqttAddrSize := by
    by_contra hlong
    have h := horder _ (perm_first hmem)
    rw [foldlM_minutes_first hletter (by omega)] at h
    cases hout : opts.foldlM readOpt optionsSetDefaults.fixed with
    | error e =>
      rw [hout] at h hdefined
      cases h
      exact hdefined rfl
    | ok s =>
      rw [hout] at h
      cases h
  cases hh : chosen Opt.letter 'h' opts with
  | some oh => exact Or.inr ⟨by simp [argOf, hh], hfits⟩
  | none =>
    refine Or.inl ?_
    have hfitsAll : ∀ p ∈ opts, p.letter = 'M' → p.optarg.length < mqttAddrSize := by
      intro p hp hpl
      rw [List.inj_on_of_nodup_map hnd hp hmem (hpl.trans hletter.symm)]
      exact hfits
    obtain ⟨s, hs⟩ := foldlM_readOpt_ok hwf hfitsAll hh optionsSetDefaults.fixed
    have hp : (opts.erase o ++ [o]).Perm opts :=
      (List.perm_append_singleton o _).trans (perm_first hmem)
    have h := horder _ hp
    rw [hs] at h
    cases hlast : (opts.erase o ++ [o]).foldlM readOpt optionsSetDefaults.fixed with
    | error e => rw [hlast] at h; cases h
    | ok s' =>
      rw [hlast] at h
      have hview : s'.view = s.view := Except.ok.inj h
      have haddr : s'.mqttAddr = s.mqttAddr := congrArg View.mqttAddr hview
      have hint : s.mqttAddr = (argOf 'B' opts).getD defaultBroker :=
        congrArg View.mqttAddr (hown s hs)
      rw [← foldlM_minutes_last hletter hlast, haddr, hint]

/-- The order of the options is free if and only if `-M` is not there, or its
argument is the broker address letter by letter, or `-h` ends the program. -/
theorem orderFree_iff {argv : List CString} {opts : List Opt} (hread : getopt argv = (opts, []))
    (hnd : (opts.map Opt.letter).Nodup) (hwf : ∀ o ∈ opts, o.WellFormed) :
    OrderFree argv opts ↔ MinutesSpellBroker opts :=
  ⟨minutes_of_orderFree hread hnd hwf, orderFree_of_minutes hread hnd hwf⟩

/-- The words of the shipped argument file, but for its `-M`. -/
def shippedArgs : List CString :=
  ["-p".toList, "-i".toList, "eth0".toList, "-P".toList, "80,22".toList, "-d".toList,
   "60".toList, "-Z".toList, "1,2".toList, "-T".toList, "300".toList, "-t".toList, "60".toList,
   "-B".toList, "tcp://test.mosquitto.org:1883".toList]

theorem orderFree_iff_shippedArgs :
    OrderFree shippedArgs (getopt shippedArgs).1 ↔ MinutesSpellBroker (getopt shippedArgs).1 :=
  orderFree_iff (by decide) (by decide) (by decide)

/-- The broker first, then the minutes. -/
def brokerThenMinutes : List CString :=
  ["-B".toList, "tcp://10.0.0.5:1883".toList, "-M".toList, "5".toList]

theorem orderFree_fails :
    ((getopt brokerThenMinutes).1.map Opt.letter).Nodup ∧
      (∀ o ∈ (getopt brokerThenMinutes).1, o.WellFormed) ∧
      (optionsReadArgs optionsSetDefaults none brokerThenMinutes).map Settings.mqttAddr =
        .ok "5".toList ∧
      ¬ OrderFree brokerThenMinutes (getopt brokerThenMinutes).1 := by
  refine ⟨by decide, by decide, rfl, ?_⟩
  intro ⟨_, hown, _⟩
  have h := congrArg View.mqttAddr (hown _ rfl)
  revert h
  decide

end Dotqoo.Config
