import Dotqoo.Config.Make

/-!
# Malformed values

A value of the configuration that makes no sense should leave its option alone,
and a net filter that makes no sense should be off. The accessors have several
ways out for such values, and some of them do not lead out:

- `options_config_get_bw_rate` reports a rate without digits, and then stores
  the product of a variable it has not assigned;
- `config_get_int` writes the number before it looks at what is behind it, and
  `options_config_get_int` does not ask for its result;
- `options_config_get_net_filter` reports a mask length above 32, and then
  switches the filter on; an empty mask is a length for it.

`malformed_iff` says what a configuration must not have for all of its malformed
values to change nothing.
-/

namespace Dotqoo.Config

open Dotqoo.Capture

/-! ## Rates -/

/-- The unit letters. -/
def unitLetters : List Char := "bBkKmMgG".toList

/-- A rate as it should be: digits, and at most one unit letter. -/
def RateFormed (s : CString) : Prop :=
  ∃ digits unit, s = digits ++ unit ∧ digits ≠ [] ∧ (∀ c ∈ digits, c.isDigit = true)
    ∧ (unit = [] ∨ ∃ c ∈ unitLetters, unit = [c])

/-- No digits, and at most one unit letter. -/
def LoneUnit (s : CString) : Prop := s = [] ∨ ∃ c ∈ unitLetters, s = [c]

theorem unitMult_isSome (c : Char) : (unitMult c).isSome = true ↔ c ∈ unitLetters := by
  have hletters : unitLetters = ['b', 'B', 'k', 'K', 'm', 'M', 'g', 'G'] := rfl
  rw [hletters]
  unfold unitMult
  split_ifs with hk hm hg hb
  all_goals simp_all
  all_goals tauto

theorem unitMult_ne_zero {c : Char} {mult : Int64} (h : unitMult c = some mult) : mult ≠ 0 := by
  unfold unitMult at h
  split_ifs at h
  all_goals
    cases h
    decide

theorem unitLetters_not_digit {c : Char} (h : c ∈ unitLetters) : c.isDigit = false := by
  have hall : (unitLetters.all fun c => !c.isDigit) = true := by decide
  simpa using List.all_eq_true.mp hall c h

/-- A rate with digits and an admissible end is well formed. -/
theorem rateFormed_of_parts {s : CString} (hdigits : s.takeWhile Char.isDigit ≠ [])
    (hunit : s.dropWhile Char.isDigit = [] ∨ ∃ c ∈ unitLetters, s.dropWhile Char.isDigit = [c]) :
    RateFormed s :=
  ⟨s.takeWhile Char.isDigit, s.dropWhile Char.isDigit, List.takeWhile_append_dropWhile.symm,
    hdigits, fun _ hc => List.all_eq_true.mp List.all_takeWhile _ hc, hunit⟩

theorem not_rateFormed_of_loneUnit {s : CString} (h : LoneUnit s) : ¬ RateFormed s := by
  rintro ⟨digits, unit, rfl, hne, hd, -⟩
  obtain ⟨d, digits, rfl⟩ := List.exists_cons_of_ne_nil hne
  rcases h with h | ⟨c, hc, h⟩
  · exact absurd h (by simp)
  · have hdigit := hd d List.mem_cons_self
    rw [(List.cons.inj h).1, unitLetters_not_digit hc] at hdigit
    exact absurd hdigit (by decide)

section Accessors

variable {config : StringMap} {s : CString}

/-- A malformed rate leaves the option alone unless it has no digits. -/
theorem bwRate_kept (left : Leftovers) (maxBandwidth : Int64)
    (hs : configGetString config "max-bandwidth".toList = some s) (hbad : ¬ RateFormed s)
    (hdigits : ¬ LoneUnit s) :
    (optionsConfigGetBwRate config left "max-bandwidth".toList maxBandwidth).value
      = maxBandwidth := by
  have hsplit : s.takeWhile Char.isDigit ++ s.dropWhile Char.isDigit = s :=
    List.takeWhile_append_dropWhile
  unfold optionsConfigGetBwRate
  rw [hs]
  dsimp only
  split
  next hrest =>
    -- digits only: there is none
    have hnone : s.takeWhile Char.isDigit = [] := by
      by_contra hne
      exact hbad (rateFormed_of_parts hne (Or.inl hrest))
    rw [hrest, hnone] at hsplit
    exact absurd (Or.inl hsplit.symm) hdigits
  next c hrest =>
    split
    next mult hmult =>
      have hc : c ∈ unitLetters := (unitMult_isSome c).mp (by rw [hmult]; rfl)
      have hnone : s.takeWhile Char.isDigit = [] := by
        by_contra hne
        exact hbad (rateFormed_of_parts hne (Or.inr ⟨c, hc, hrest⟩))
      rw [hrest, hnone] at hsplit
      exact absurd (Or.inr ⟨c, hc, hsplit.symm⟩) hdigits
    next => rfl
  next => rfl

/-- A rate without digits is what was in the variable, times the unit. -/
theorem bwRate_loneUnit (hs : configGetString config "max-bandwidth".toList = some s)
    (hlone : LoneUnit s) : ∃ mult ≠ 0, ∀ (left : Leftovers) (maxBandwidth : Int64),
      (optionsConfigGetBwRate config left "max-bandwidth".toList maxBandwidth).value
        = left.value * mult := by
  rcases hlone with rfl | ⟨c, hc, rfl⟩
  · refine ⟨1, by decide, fun left maxBandwidth => ?_⟩
    unfold optionsConfigGetBwRate
    rw [hs]
    rfl
  · obtain ⟨mult, hmult⟩ := Option.isSome_iff_exists.mp ((unitMult_isSome c).mpr hc)
    refine ⟨mult, unitMult_ne_zero hmult, fun left maxBandwidth => ?_⟩
    have hdigit : ¬ c.isDigit = true := by simp [unitLetters_not_digit hc]
    unfold optionsConfigGetBwRate
    rw [hs]
    simp only [List.dropWhile_cons_of_neg hdigit, hmult, readRate,
      List.takeWhile_cons_of_neg hdigit, if_true]

/-! ## Numbers and enumerations -/

/-- A number is written, rejected or not, unless the value is empty. -/
theorem getInt_kept_iff {directive : CString} {value : Int}
    (hs : configGetString config directive = some s) :
    (optionsConfigGetInt config directive value).value = value ↔ s = [] ∨ atoi s = value := by
  have hgot : (optionsConfigGetInt config directive value).value
      = (configGetInt config directive value).1 := by
    unfold optionsConfigGetInt
    rw [hs]
  rw [hgot]
  unfold configGetInt
  rw [hs]
  dsimp only
  split
  next hnil => simp [hnil]
  next hne =>
    split
    next => simp [hne]
    next => simp [hne]

/-- A value that is in no enumeration leaves the option alone. -/
theorem getEnum_kept {β : Type} {name : CString} {enumeration : List (CString × β)} (result : β)
    (hs : configGetString config name = some s) (hbad : s ∉ enumeration.map Prod.fst) :
    (optionsConfigGetEnum config name enumeration result).value = result := by
  have hnone : enumeration.find? (fun t => strcmp s t.1 = .eq) = none := by
    rw [List.find?_eq_none]
    intro t ht heq
    exact hbad (eq_of_strcmp (by simpa using heq) ▸ List.mem_map_of_mem ht)
  unfold optionsConfigGetEnum configGetEnum
  rw [hs]
  simp only [hnone]

/-! ## The net filter -/

/-- A net filter that should be off. -/
def NetMalformed (inet : Inet) (s : CString) : Prop :=
  '/' ∉ s ∨ inet.aton (netPart s) = none ∨ maskPart s = []
    ∨ (isNumeric (maskPart s) = true ∧ 32 < digitsValue (maskPart s))
    ∨ (isNumeric (maskPart s) = false ∧ inet.aton (maskPart s) = none)

/-- An address, and behind the `/` no number, or one above 32. -/
def LengthSlips (inet : Inet) (s : CString) : Prop :=
  '/' ∈ s ∧ inet.aton (netPart s) ≠ none ∧ isNumeric (maskPart s) = true
    ∧ (maskPart s = [] ∨ 32 < digitsValue (maskPart s))

/-- When the filter is on: the address is read, and the mask consists of digits
or is read, too. -/
theorem netfilter_on_iff {inet : Inet} (left : Leftovers) (o : Options)
    (hs : configGetString config "net-filter".toList = some s) :
    (optionsConfigGetNetFilter config inet left o).value.netfilter = true ↔
      '/' ∈ s ∧ inet.aton (netPart s) ≠ none
        ∧ (isNumeric (maskPart s) = true ∨ inet.aton (maskPart s) ≠ none) := by
  unfold optionsConfigGetNetFilter
  rw [hs]
  dsimp only
  by_cases hslash : '/' ∈ s
  · rw [if_neg (not_not.mpr hslash)]
    cases hnet : inet.aton (netPart s) with
    | none => simp
    | some net =>
      by_cases hnum : isNumeric (maskPart s) = true
      · simp only [hnum, if_true]
        split
        next => simp [hslash, maskNet]
        next => simp [hslash, maskNet]
      · simp only [hnum]
        cases hmask : inet.aton (maskPart s) with
        | none => simp
        | some m => simp [hslash, maskNet]
  · simp [hslash]

/-- A malformed net filter is on exactly if its mask is empty or a length above 32. -/
theorem netfilter_malformed {inet : Inet} (left : Leftovers) (o : Options)
    (hs : configGetString config "net-filter".toList = some s) (hbad : NetMalformed inet s) :
    (optionsConfigGetNetFilter config inet left o).value.netfilter = false ↔
      ¬ LengthSlips inet s := by
  rw [← Bool.not_eq_true, netfilter_on_iff left o hs, not_iff_not]
  unfold LengthSlips
  constructor
  · rintro ⟨hslash, hnet, hmask⟩
    rcases hbad with h | h | h | ⟨hnum, h⟩ | ⟨hnum, h⟩
    · exact absurd hslash h
    · exact absurd h hnet
    · exact ⟨hslash, hnet, by rw [h]; rfl, Or.inl h⟩
    · exact ⟨hslash, hnet, hnum, Or.inr h⟩
    · rcases hmask with hm | hm
      · rw [hnum] at hm
        exact absurd hm (by decide)
      · exact absurd h hm
  · rintro ⟨hslash, hnet, hnum, -⟩
    exact ⟨hslash, hnet, Or.inl hnum⟩

theorem netMalformed_of_slips {inet : Inet} (h : LengthSlips inet s) : NetMalformed inet s := by
  obtain ⟨-, -, hnum, hempty | hlong⟩ := h
  · exact Or.inr (Or.inr (Or.inl hempty))
  · exact Or.inr (Or.inr (Or.inr (Or.inl ⟨hnum, hlong⟩)))

end Accessors

/-! ## `options_make` -/

/-- The malformed values of a configuration change nothing, whatever is in the
variable that is not assigned; a malformed net filter is off. -/
structure MalformedKept (inet : Inet) (config : StringMap) (o : MakeOptions) : Prop where
  maxBandwidth : ∀ s, configGetString config "max-bandwidth".toList = some s → ¬ RateFormed s →
    ∀ left, (optionsMake inet left config o).options.maxBandwidth = o.maxBandwidth
  timedOutput : (configGetInt config "timed-output".toList o.timedOutput).2 = -1 →
    ∀ left, (optionsMake inet left config o).options.timedOutput = o.timedOutput
  numLines : (configGetInt config "num-lines".toList o.numLines).2 = -1 →
    ∀ left, (optionsMake inet left config o).options.numLines = o.numLines
  sort : ∀ s, configGetString config "sort".toList = some s →
    s ∉ sortEnumeration.map Prod.fst →
    ∀ left, (optionsMake inet left config o).options.sort = o.sort
  linedisplay : ∀ s, configGetString config "line-display".toList = some s →
    s ∉ linedisplayEnumeration.map Prod.fst →
    ∀ left, (optionsMake inet left config o).options.linedisplay = o.linedisplay
  showports : ∀ s, configGetString config "port-display".toList = some s →
    s ∉ showportsEnumeration.map Prod.fst →
    ∀ left, (optionsMake inet left config o).options.showports = o.showports
  netfilter : ∀ s, configGetString config "net-filter".toList = some s → NetMalformed inet s →
    ∀ left, (optionsMake inet left config o).options.netfilter = false

/-- A rejected number is not there, or is the number the option has. -/
def SameNumber (config : StringMap) (directive : CString) (value : Int) : Prop :=
  ∀ s, configGetString config directive = some s → (configGetInt config directive value).2 = -1 →
    s = [] ∨ atoi s = value

/-- The configuration has none of the values that get through. -/
structure NothingSlips (inet : Inet) (config : StringMap) (o : MakeOptions) : Prop where
  maxBandwidth : ∀ s, configGetString config "max-bandwidth".toList = some s → ¬ LoneUnit s
  timedOutput : SameNumber config "timed-output".toList o.timedOutput
  numLines : SameNumber config "num-lines".toList o.numLines
  netfilter : ∀ s, configGetString config "net-filter".toList = some s → ¬ LengthSlips inet s

/-- A rate without digits changes the option, for some value of the variable. -/
theorem maxBandwidth_kept_iff (inet : Inet) (config : StringMap) (o : MakeOptions) :
    (∀ s, configGetString config "max-bandwidth".toList = some s → ¬ RateFormed s →
        ∀ left, (optionsMake inet left config o).options.maxBandwidth = o.maxBandwidth)
      ↔ ∀ s, configGetString config "max-bandwidth".toList = some s → ¬ LoneUnit s := by
  have hmake : ∀ left, (optionsMake inet left config o).options.maxBandwidth
      = (optionsConfigGetBwRate config left "max-bandwidth".toList o.maxBandwidth).value :=
    fun _ => rfl
  constructor
  · intro h s hs hlone
    obtain ⟨mult, hmult, hvalue⟩ := bwRate_loneUnit hs hlone
    have hkept := h s hs (not_rateFormed_of_loneUnit hlone)
    -- the variable may have been 0 or 1
    have hzero := hkept ⟨0, 0⟩
    have hone := hkept ⟨1, 0⟩
    rw [hmake, hvalue] at hzero hone
    rw [← hzero] at hone
    exact hmult (by simpa using hone)
  · intro h s hs hbad left
    rw [hmake]
    exact bwRate_kept left o.maxBandwidth hs hbad (h s hs)

/-- A rejected number leaves the option alone only if it is not there, or the same. -/
theorem number_kept_iff (config : StringMap) (directive : CString) (value : Int) :
    ((configGetInt config directive value).2 = -1 →
        (optionsConfigGetInt config directive value).value = value)
      ↔ SameNumber config directive value := by
  unfold SameNumber
  cases hs : configGetString config directive with
  | none => simp [optionsConfigGetInt, hs]
  | some s => simp [getInt_kept_iff hs]

/-- All malformed values of a configuration change nothing if and only if none of
the values is one that gets through. -/
theorem malformed_iff (inet : Inet) (config : StringMap) (o : MakeOptions) :
    MalformedKept inet config o ↔ NothingSlips inet config o := by
  have htimed := number_kept_iff config "timed-output".toList o.timedOutput
  have hlines := number_kept_iff config "num-lines".toList o.numLines
  constructor
  · intro h
    refine ⟨(maxBandwidth_kept_iff inet config o).mp h.maxBandwidth,
      htimed.mp fun hbad => h.timedOutput hbad ⟨0, 0⟩,
      hlines.mp fun hbad => h.numLines hbad ⟨0, 0⟩, fun s hs hslips => ?_⟩
    have hbad := netMalformed_of_slips hslips
    exact (netfilter_malformed _ _ hs hbad).mp (h.netfilter s hs hbad ⟨0, 0⟩) hslips
  · intro h
    exact
      { maxBandwidth := (maxBandwidth_kept_iff inet config o).mpr h.maxBandwidth
        timedOutput := fun hbad _ => htimed.mpr h.timedOutput hbad
        numLines := fun hbad _ => hlines.mpr h.numLines hbad
        sort := fun _ hs hbad _ => getEnum_kept o.sort hs hbad
        linedisplay := fun _ hs hbad _ => getEnum_kept o.linedisplay hs hbad
        showports := fun _ hs hbad _ => getEnum_kept o.showports hs hbad
        netfilter := fun s hs hbad _ => (netfilter_malformed _ _ hs hbad).mpr (h.netfilter s hs) }

/-- What `options_set_defaults` sets, for the interface `eth0`. -/
def makeDefaults : MakeOptions where
  toOptions := optionsSetDefaults.options
  interface := some "eth0".toList
  dnsresolution := true
  portresolution := true
  filtercode := none
  showbars := true
  promiscuous := false
  aggregateSrc := false
  aggregateDest := false
  bandwidthInBytes := true
  sort := .sortDiv2
  linedisplay := .twoLine
  showTotals := true
  logScale := false
  maxBandwidth := 0
  showports := .portsOn
  screenfilter := none
  linkLocal := false
  timedOutput := 0
  noCurses := false
  numLines := 10
  net6 :=
    { netfilter6 := false
      netfilter6net := [0xfe, 0x80, 0, 0, 0, 0, 0, 0, 0, 0, 0, 0, 0, 0, 0, 0]
      netfilter6mask := [0xff, 0xff, 0, 0, 0, 0, 0, 0, 0, 0, 0, 0, 0, 0, 0, 0] }

/-- A number with something behind it is rejected, and is the option afterwards. -/
theorem malformed_fails : ¬ MalformedKept quadsOnly
    (configSetString .leaf "timed-output".toList "5x".toList) makeDefaults := by
  intro h
  have hvalue := h.timedOutput (by decide) ⟨0, 0⟩
  revert hvalue
  show ¬ (optionsConfigGetInt _ "timed-output".toList 0).value = 0
  decide

end Dotqoo.Config
