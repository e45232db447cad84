import Mathlib.Data.List.Nodup
import Dotqoo.Config.ArgOrder
import Dotqoo.Flow.BlockList

/-!
# The list options

`-P` and `-Z` take comma-separated numbers into `port_list[10]` and
`options.block_protocols[32]`:

    port_list[0] = atoi(strtok(optarg,delim));
    for(i = 1; (p = strtok(NULL, delim)) != NULL; i++)
        port_list[i] = atoi(p);

Nothing bounds `i`. `writeTokens` is the loop with a checked write, and the
switch of `readOpt` stops where that does (`readOpt_writes`).

The readers find the end of their list in different ways. `in_port_list` stops
after 10 entries, so ten ports are in order, and the other entries have been set
to -1 before. The block list scan stops at a -1 only: thirty-two protocols fill
the array and leave none, and a shorter list stands in front of what an earlier
`-Z` left there. `listOptions_iff` has the exact conditions.
-/

namespace Dotqoo.Config

open Dotqoo.Capture Dotqoo.Lib

/-- A list of numbers between `low` and `high`, as it is written: strings of
digits. -/
structure NumberList (low high : Nat) where
  tokens : List CString
  nonempty : tokens ≠ []
  digits : ∀ token ∈ tokens, token ≠ [] ∧ ∀ c ∈ token, c.isDigit = true
  range : ∀ token ∈ tokens, low ≤ digitsValue token ∧ digitsValue token ≤ high

/-- The argument of the option. -/
def NumberList.spell {low high : Nat} (l : NumberList low high) : CString :=
  [','].intercalate l.tokens

/-- The numbers of the list. -/
def NumberList.numbers {low high : Nat} (l : NumberList low high) : List Nat :=
  l.tokens.map digitsValue

/-- Numbers as entries of an array. -/
def asEntries (numbers : List Nat) : List Int := numbers.map fun n : Nat => (n : Int)

/-! ## Writing the tokens -/

/-- The token loop from index `i` on; `none` when it writes outside the array. -/
def writeTokens : List Int → Nat → List CString → Option (List Int)
  | array, _, [] => some array
  | array, i, token :: tokens =>
    if i < array.length then writeTokens (array.set i (atoi token)) (i + 1) tokens else none

theorem writeTokens_eq : ∀ (array : List Int) (i : Nat) (tokens : List CString),
    i ≤ array.length → writeTokens array i tokens
      = if i + tokens.length ≤ array.length then
          some (array.take i ++ tokens.map atoi ++ array.drop (i + tokens.length))
        else none
  | array, i, [], h => by simp [writeTokens, h]
  | array, i, token :: tokens, h => by
    rw [writeTokens]
    by_cases hi : i < array.length
    · have hih := writeTokens_eq (array.set i (atoi token)) (i + 1) tokens (by
        rw [List.length_set]
        omega)
      have hcount : i + 1 + tokens.length = i + (token :: tokens).length := by
        rw [List.length_cons]
        omega
      have htake : (array.set i (atoi token)).take (i + 1) = array.take i ++ [atoi token] := by
        rw [List.take_add_one, List.take_set_of_le (Nat.le_refl i)]
        simp [hi]
      rw [if_pos hi, hih, List.length_set, htake, hcount, List.drop_set_of_lt (by
        rw [List.length_cons]
        omega)]
      simp
    · rw [if_neg hi, if_neg (by
        rw [List.length_cons]
        omega)]

/-- The two cases of the switch: `strtok` must find a token to start with. -/
def storeList (array : List Int) (optarg : CString) : Except Stop (List Int) :=
  match strtok ',' optarg with
  | [] => .error .undefined
  | token :: tokens =>
    match writeTokens array 0 (token :: tokens) with
    | some array => .ok array
    | none => .error .undefined

theorem storeList_eq (array : List Int) (optarg : CString) : storeList array optarg
    = if tokensFit array.length optarg = true then .ok (storeTokens array optarg)
      else .error .undefined := by
  unfold storeList tokensFit storeTokens
  cases strtok ',' optarg with
  | nil => rfl
  | cons token tokens =>
    dsimp only
    rw [writeTokens_eq array 0 _ (Nat.zero_le _), Nat.zero_add, List.take_zero, List.nil_append]
    by_cases hfit : (token :: tokens).length ≤ array.length
    · rw [if_pos hfit, if_pos (by simpa using hfit)]
    · rw [if_neg hfit, if_neg (by simpa using hfit)]

/-- Where the switch goes on, the loop has stayed inside the array. -/
theorem readOpt_writes (s : Settings) (optarg : CString)
    (hs : s.options.blockProtocols.length = blockProtocolsLen) :
    readOpt s ⟨'P', optarg⟩
        = (storeList (List.replicate portListLen (-1)) optarg).map
            (fun portList => { s with portList })
      ∧ readOpt s ⟨'Z', optarg⟩
        = (storeList s.options.blockProtocols optarg).map
            (fun blockProtocols => { s with options.blockProtocols := blockProtocols }) := by
  rw [storeList_eq, storeList_eq, List.length_replicate, hs]
  refine ⟨?_, ?_⟩
  · show (if tokensFit portListLen optarg = true then _ else _) = _
    split <;> rfl
  · show (if tokensFit blockProtocolsLen optarg = true then _ else _) = _
    split <;> rfl

/-! ## Reading a list of numbers -/

namespace NumberList

variable {low high : Nat} (l : NumberList low high)

/-- `strtok` finds the numbers as they were written. -/
theorem strtok_spell : strtok ',' l.spell = l.tokens := by
  have hcomma : ∀ token ∈ l.tokens, ',' ∉ token := by
    intro token ht hmem
    exact absurd ((l.digits token ht).2 ',' hmem) (by decide)
  rw [strtok, NumberList.spell, List.splitOn_intercalate ',' hcomma l.nonempty, List.filter_eq_self]
  intro token ht
  simpa using (l.digits token ht).1

/-- What is stored are the numbers. -/
theorem map_atoi (hhigh : high < 2 ^ 31) :
    (strtok ',' l.spell).map atoi = asEntries l.numbers := by
  rw [l.strtok_spell, asEntries, NumberList.numbers, List.map_map]
  apply List.map_congr_left
  intro token ht
  obtain ⟨hne, hd⟩ := l.digits token ht
  exact atoi_digits hne hd (Nat.lt_of_le_of_lt (l.range token ht).2 hhigh)

theorem length_numbers : l.numbers.length = l.tokens.length := List.length_map ..

theorem range_numbers : ∀ n ∈ l.numbers, low ≤ n ∧ n ≤ high := by
  intro n hn
  obtain ⟨token, ht, rfl⟩ := List.mem_map.mp hn
  exact l.range token ht

/-- The tokens fit exactly if the list is no longer than the array. -/
theorem tokensFit_iff (len : Nat) : tokensFit len l.spell = true ↔ l.tokens.length ≤ len := by
  have hpos : 0 < l.tokens.length := List.length_pos_iff.mpr l.nonempty
  simp only [tokensFit, l.strtok_spell, Bool.and_eq_true, decide_eq_true_eq]
  exact ⟨fun h => h.2, fun h => ⟨hpos, h⟩⟩

end NumberList

/-! ## Ports -/

/-- Later options without the letter leave a part alone that only it writes. -/
theorem later_frame {β : Type} {p : Settings → β} {letter : Char}
    (heffect : ∀ s o, o.letter ≠ letter → p (effect s o) = p s) {later : List Opt}
    (hlater : ∀ o ∈ later, o.letter ≠ letter) {s s' : Settings}
    (h : later.foldlM readOpt s = .ok s') : p s' = p s :=
  foldlM_frame (fun t _ o ho hstep => by rw [readOpt_ok hstep, heffect t o (hlater o ho)]) h

/-- `-P` with this list is in order: all writes are inside `port_list`, and
whatever options follow (other than `-P`), the look-up stays inside the array and
finds the listed ports and no other. -/
def PortsExact (s : Settings) (l : NumberList 1 65535) : Prop :=
  ∃ stored, readOpt s ⟨'P', l.spell⟩ = .ok stored ∧
    ∀ (later : List Opt) (s' : Settings), (∀ o ∈ later, o.letter ≠ 'P') →
      later.foldlM readOpt stored = .ok s' → s'.portList.length = portListLen ∧
        ∀ p : UInt16, p ≠ 0 → (inPortList s'.portList portListLen p = true ↔ p.toNat ∈ l.numbers)

/-- A list that fits is looked up exactly. -/
theorem inPortList_stored {l : NumberList 1 65535} (hfit : l.tokens.length ≤ portListLen) :
    (storeTokens (List.replicate portListLen (-1)) l.spell).length = portListLen
      ∧ ∀ p : UInt16, inPortList (storeTokens (List.replicate portListLen (-1)) l.spell)
          portListLen p = true ↔ p.toNat ∈ l.numbers := by
  have hround : ∀ n ∈ l.numbers, (UInt16.ofNat n).toNat = n := by
    intro n hn
    have hle := (l.range_numbers n hn).2
    exact UInt16.toNat_ofNat_of_lt' (Nat.lt_succ_of_le hle)
  have hports : (strtok ',' l.spell).map atoi
      = (l.numbers.map UInt16.ofNat).map fun p => (p.toNat : Int) := by
    rw [l.map_atoi (by omega), asEntries, List.map_map]
    refine List.map_congr_left fun n hn => ?_
    rw [Function.comp_apply, hround n hn]
  have hlen : (l.numbers.map UInt16.ofNat).length ≤ portListLen := by
    rw [List.length_map, l.length_numbers]
    exact hfit
  rw [storeTokens_ports hports]
  constructor
  · rw [storePortList, List.length_append, List.length_map, List.length_replicate]
    omega
  · intro p
    rw [inPortList_storePortList hlen, List.mem_map]
    · constructor
      · rintro ⟨n, hn, rfl⟩
        rwa [hround n hn]
      · exact fun hp => ⟨p.toNat, hp, UInt16.ofNat_toNat⟩
    · intro p hp hzero
      obtain ⟨n, hn, rfl⟩ := List.mem_map.mp hp
      have hn1 := (l.range_numbers n hn).1
      have hn0 := hround n hn
      rw [hzero] at hn0
      exact absurd hn0 (by rw [UInt16.toNat_zero]; omega)

/-- `-P` is in order exactly for lists of at most `PORT_LIST_LEN` ports. -/
theorem portsExact_iff (s : Settings) (l : NumberList 1 65535) :
    PortsExact s l ↔ l.tokens.length ≤ portListLen := by
  have hread : readOpt s ⟨'P', l.spell⟩ = if tokensFit portListLen l.spell = true then
      .ok { s with portList := storeTokens (List.replicate portListLen (-1)) l.spell }
      else .error .undefined := rfl
  constructor
  · rintro ⟨stored, hok, -⟩
    rw [hread] at hok
    split at hok
    next hfit => exact (l.tokensFit_iff portListLen).mp hfit
    next => cases hok
  · intro hfit
    refine ⟨_, by rw [hread, if_pos ((l.tokensFit_iff portListLen).mpr hfit)], ?_⟩
    intro later s' hlater hrun
    have hsame := later_frame (p := Settings.portList) (fun s o ho => if_neg ho) hlater hrun
    obtain ⟨hlen, hfind⟩ := inPortList_stored hfit
    rw [hsame]
    exact ⟨hlen, fun p _ => hfind p⟩

/-! ## Protocols -/

/-- `-Z` with this list is in order: all writes are inside
`options.block_protocols`, and whatever options follow (other than `-Z`), the scan
from index 0 stays inside the array and hits the listed protocols and no other. -/
def ProtocolsExact (s : Settings) (l : NumberList 0 255) : Prop :=
  ∃ stored, readOpt s ⟨'Z', l.spell⟩ = .ok stored ∧
    ∀ (later : List Opt) (s' : Settings), (∀ o ∈ later, o.letter ≠ 'Z') →
      later.foldlM readOpt stored = .ok s' → ∀ p : UInt8, ∃ hit, blockLoop s'.options.blockProtocols p 0 = some hit
        ∧ (hit = true ↔ p.toNat ∈ l.numbers)

/-- What stands behind the list ends it: the entries from index `n` on have a -1,
and before that no protocol that is not listed. -/
def EndsList (entries : List Int) (l : NumberList 0 255) : Prop :=
  -1 ∈ entries.drop l.tokens.length ∧
    ∀ p : UInt8, (p.toNat : Int) ∈ untilMark (-1) (entries.drop l.tokens.length) →
      p.toNat ∈ l.numbers

/-- Less than 256 numbers leave a protocol out. -/
theorem exists_unlisted {numbers : List Nat} (h : numbers.length < 256) :
    ∃ p : UInt8, p.toNat ∉ numbers := by
  by_contra hall
  simp only [not_exists, not_not] at hall
  have hsub : List.range 256 ⊆ numbers := by
    intro n hn
    have hlt : n < 256 := List.mem_range.mp hn
    have hp := hall (UInt8.ofNat n)
    rwa [UInt8.toNat_ofNat_of_lt' hlt] at hp
  have hle := (List.nodup_range.subperm hsub).length_le
  rw [List.length_range] at hle
  omega

/-- The scan of a list of numbers and what stands behind it. -/
theorem scan_exact_iff {numbers : List Nat} (hlen : numbers.length < 256) (rest : List Int) :
    (∀ p : UInt8, ∃ hit, search (-1) (p.toNat : Int) (asEntries numbers ++ rest) = some hit
        ∧ (hit = true ↔ p.toNat ∈ numbers))
      ↔ -1 ∈ rest ∧ ∀ p : UInt8, (p.toNat : Int) ∈ untilMark (-1) rest → p.toNat ∈ numbers := by
  have hmark : (-1 : Int) ∉ asEntries numbers := by
    simp only [asEntries, List.mem_map, not_exists, not_and]
    intro n _
    omega
  have hbefore := untilMark_append hmark rest
  have hlisted : ∀ p : UInt8, (p.toNat : Int) ∈ asEntries numbers ↔ p.toNat ∈ numbers := by
    intro p
    simp only [asEntries, List.mem_map, Int.natCast_inj, exists_eq_right]
  constructor
  · intro h
    refine ⟨?_, fun p hp => ?_⟩
    -- a protocol that is not in the list is found missing at a -1
    · obtain ⟨p, hp⟩ := exists_unlisted hlen
      obtain ⟨hit, hs, hhit⟩ := h p
      have hfalse : hit = false := by
        cases hit with
        | false => rfl
        | true => exact absurd (hhit.mp rfl) hp
      rw [hfalse, search_eq_false_iff] at hs
      exact (List.mem_append.mp hs.1).resolve_left hmark
    · obtain ⟨hit, hs, hhit⟩ := h p
      have htrue : search (-1) (p.toNat : Int) (asEntries numbers ++ rest) = some true := by
        rw [search_eq_true_iff (protocol_ne_mark p), hbefore]
        exact List.mem_append_right _ hp
      rw [hs] at htrue
      exact hhit.mp (Option.some.inj htrue)
  · rintro ⟨hend, honly⟩ p
    obtain ⟨hit, hs, hhit⟩ := search_of_mem (protocol_ne_mark p)
      (List.mem_append_right (asEntries numbers) hend)
    refine ⟨hit, hs, hhit.trans ?_⟩
    rw [hbefore, List.mem_append, hlisted]
    exact ⟨fun h => h.elim id (honly p), Or.inl⟩

/-- `-Z` is in order exactly for lists that what stands behind them ends. -/
theorem protocolsExact_iff {s : Settings} (hs : s.options.blockProtocols.length = blockProtocolsLen)
    (l : NumberList 0 255) : ProtocolsExact s l ↔ EndsList s.options.blockProtocols l := by
  have hread : readOpt s ⟨'Z', l.spell⟩ = if tokensFit blockProtocolsLen l.spell = true then
      .ok { s with options.blockProtocols := storeTokens s.options.blockProtocols l.spell }
      else .error .undefined := rfl
  have hstore : storeTokens s.options.blockProtocols l.spell
      = asEntries l.numbers ++ s.options.blockProtocols.drop l.tokens.length := by
    rw [storeTokens, l.map_atoi (by omega), l.strtok_spell]
  have hscan : ∀ p : UInt8, blockLoop (storeTokens s.options.blockProtocols l.spell) p 0
      = search (-1) (p.toNat : Int)
          (asEntries l.numbers ++ s.options.blockProtocols.drop l.tokens.length) := by
    intro p
    rw [blockLoop_eq, if_pos (Int.le_refl 0), Int.toNat_zero, List.drop_zero,
      blockScan_eq_search, hstore]
  constructor
  · rintro ⟨stored, hok, hafter⟩
    rw [hread] at hok
    split at hok
    next hfit =>
      cases hok
      have hle := (l.tokensFit_iff blockProtocolsLen).mp hfit
      have hlen : l.numbers.length < 256 := by
        rw [l.length_numbers]
        unfold blockProtocolsLen at hle
        omega
      have hexact := hafter [] _ (fun o ho => absurd ho List.not_mem_nil) rfl
      simp only [hscan] at hexact
      exact (scan_exact_iff hlen _).mp hexact
    next => cases hok
  · intro hends
    -- a -1 behind the list means that there is room for it
    have hlt : l.tokens.length < blockProtocolsLen := by
      rw [← hs]
      exact Nat.lt_of_not_le fun hle => List.ne_nil_of_mem hends.1 (List.drop_eq_nil_of_le hle)
    have hlen : l.numbers.length < 256 := by
      rw [l.length_numbers]
      unfold blockProtocolsLen at hlt
      omega
    refine ⟨_, by rw [hread, if_pos ((l.tokensFit_iff _).mpr (Nat.le_of_lt hlt))], ?_⟩
    intro later s' hlater hrun
    have hsame := later_frame (p := fun s => s.options.blockProtocols)
      (fun s o ho => if_neg ho) hlater hrun
    simp only [hsame, hscan]
    exact (scan_exact_iff hlen _).mpr hends

/-- From the defaults, those are the lists of at most 31 protocols. -/
theorem endsList_defaults (l : NumberList 0 255) :
    EndsList optionsSetDefaults.options.blockProtocols l ↔ l.tokens.length ≤ 31 := by
  have hrest : optionsSetDefaults.options.blockProtocols.drop l.tokens.length
      = List.replicate (32 - l.tokens.length) (-1) := List.drop_replicate
  rw [EndsList, hrest]
  constructor
  · rintro ⟨hmem, -⟩
    have hne := (List.mem_replicate.mp hmem).1
    omega
  · intro hle
    obtain ⟨k, hk⟩ : ∃ k, 32 - l.tokens.length = k + 1 := ⟨31 - l.tokens.length, by omega⟩
    rw [hk, List.replicate_succ, untilMark_mark]
    exact ⟨List.mem_cons_self, fun p hp => absurd hp List.not_mem_nil⟩

/-! ## Both -/

/-- When the list options do what they should. -/
theorem listOptions_iff (s : Settings) (hs : s.options.blockProtocols.length = blockProtocolsLen)
    (ports : NumberList 1 65535) (protocols : NumberList 0 255) :
    (PortsExact s ports ↔ ports.tokens.length ≤ portListLen)
      ∧ (ProtocolsExact s protocols ↔ EndsList s.options.blockProtocols protocols) :=
  ⟨portsExact_iff s ports, protocolsExact_iff hs protocols⟩

/-- `n` times the number 6. -/
def sixes (low high n : Nat) (hn : n ≠ 0) (hlow : low ≤ 6) (hhigh : 6 ≤ high) :
    NumberList low high where
  tokens := List.replicate n ['6']
  nonempty := fun h => hn (by simpa using h)
  digits := by
    intro token ht
    rw [List.eq_of_mem_replicate ht]
    exact ⟨List.cons_ne_nil _ _, List.all_eq_true.mp (by decide)⟩
  range := by
    intro token ht
    rw [List.eq_of_mem_replicate ht]
    exact ⟨hlow, hhigh⟩

theorem listOptions_defaults :
    optionsSetDefaults.options.blockProtocols.length = blockProtocolsLen
      ∧ (PortsExact optionsSetDefaults (sixes 1 65535 10 (by omega) (by omega) (by omega))
        ↔ (sixes 1 65535 10 (by omega) (by omega) (by omega)).tokens.length ≤ portListLen)
      ∧ (ProtocolsExact optionsSetDefaults (sixes 0 255 31 (by omega) (by omega) (by omega))
        ↔ EndsList optionsSetDefaults.options.blockProtocols
          (sixes 0 255 31 (by omega) (by omega) (by omega))) :=
  ⟨rfl, listOptions_iff optionsSetDefaults rfl _ _⟩

/-- Eleven ports are written past the end of `port_list`; thirty-two protocols
leave no terminator. -/
theorem listOptions_fail :
    ¬ PortsExact optionsSetDefaults (sixes 1 65535 11 (by omega) (by omega) (by omega))
      ∧ ¬ ProtocolsExact optionsSetDefaults (sixes 0 255 32 (by omega) (by omega) (by omega)) := by
  constructor
  · rw [portsExact_iff]
    decide
  · rw [protocolsExact_iff rfl, endsList_defaults]
    decide

end Dotqoo.Config
