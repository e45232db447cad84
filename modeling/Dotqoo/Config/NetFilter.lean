import Mathlib.Data.List.TakeWhile
import Dotqoo.Capture.Tick
import Dotqoo.Config.Make
import Dotqoo.Lib.Sentinel

/-!
# The net filter

`-F 10.0.0.0/8`, or `-F 10.0.0.0/255.0.0.0`, names a network, and only packets
that cross its border are counted, the inner end as the source of their record.
The value goes through `options_config_get_net_filter`, which leaves a mask and a
masked network in network order; `in_filter_net` compares under that mask.

An address is a row of 32 bits here, the first bit of its first octet in front
(`addrBit`). A value covers some of these bits: the first `n`, or those of a
dotted mask. `netFilter_cidr` says that the filter asks for these bits and no
others, whatever the length: 0, where every address is inside, and 32 included.
-/

namespace Dotqoo.Config

open Dotqoo.Capture Dotqoo.Table Dotqoo.Lib

/-! ## Addresses as bits -/

/-- Bit `k` of an address in network order, counted from the front. -/
def addrBit (addr : UInt32) (k : Nat) : Bool := addr.toNat.testBit (8 * (k / 8) + (7 - k % 8))

@[simp] theorem addrBit_and (x y : UInt32) (k : Nat) :
    addrBit (x &&& y) k = (addrBit x k && addrBit y k) := by
  rw [addrBit, UInt32.toNat_and, Nat.testBit_and, addrBit, addrBit]

/-- An address has 32 bits. -/
theorem addr_eq_iff (x y : UInt32) : x = y ↔ ∀ k < 32, addrBit x k = addrBit y k := by
  refine ⟨fun h _ _ => by rw [h], fun h => ?_⟩
  rw [← UInt32.toNat_inj]
  refine Nat.eq_of_testBit_eq fun i => ?_
  by_cases hi : i < 32
  -- the place of bit `i` in the row of bits
  · obtain ⟨k, hk⟩ : ∃ k, k = 8 * (i / 8) + (7 - i % 8) := ⟨_, rfl⟩
    have hindex : 8 * (k / 8) + (7 - k % 8) = i := by omega
    have hbit := h k (by omega)
    rwa [addrBit, addrBit, hindex] at hbit
  · have hhigh : ∀ z : UInt32, z.toNat.testBit i = false := fun z =>
      Nat.testBit_lt_two_pow (Nat.lt_of_lt_of_le z.toNat_lt (Nat.pow_le_pow_right (by decide)
        (Nat.le_of_not_lt hi)))
    rw [hhigh, hhigh]

/-- Two addresses are equal under a mask if they agree on its bits. -/
theorem and_mask_eq_iff (x y m : UInt32) :
    x &&& m = y &&& m ↔ ∀ k < 32, addrBit m k = true → addrBit x k = addrBit y k := by
  rw [addr_eq_iff]
  refine forall₂_congr fun k _ => ?_
  rw [addrBit_and, addrBit_and]
  cases addrBit m k with
  | false => simp
  | true => simp

/-! ## Values -/

/-- A mask length: digits that make a number of at most 32. -/
structure MaskLength where
  digits : CString
  nonempty : digits ≠ []
  isDigits : ∀ c ∈ digits, c.isDigit = true
  le : digitsValue digits ≤ 32

/-- The two notations for a mask. -/
inductive NetMask where
  | length (n : MaskLength)
  | dotted (m : Quad)

/-- The part of the value behind the `/`. -/
def NetMask.spell : NetMask → CString
  | .length n => n.digits
  | .dotted m => m.spell

/-- Is bit `k` of an address a bit of the mask? -/
def NetMask.covers : NetMask → Nat → Bool
  | .length n, k => k < digitsValue n.digits
  | .dotted m, k => addrBit m.addr k

/-- A network with its mask. -/
structure NetValue where
  net : Quad
  mask : NetMask

/-- The value of the directive. -/
def NetValue.spell (v : NetValue) : CString := v.net.spell ++ '/' :: v.mask.spell

/-- The address agrees with the network on all bits of the mask. -/
def NetValue.Inside (v : NetValue) (addr : UInt32) : Prop :=
  ∀ k < 32, v.mask.covers k = true → addrBit addr k = addrBit v.net.addr k

/-- Exactly one end of the packet is inside. -/
def NetValue.Crosses (v : NetValue) (iptr : Packet) : Prop :=
  (v.Inside (ipSrc iptr) ∧ ¬ v.Inside (ipDst iptr)) ∨
    (v.Inside (ipDst iptr) ∧ ¬ v.Inside (ipSrc iptr))

/-- A pair and a direction of a packet: its `src` is the inner end, with its
port, and it goes out if the inner end has sent it. -/
def NetValue.InnerEnd (v : NetValue) (iptr : Packet) (ap : AddrPair) (direction : Direction) :
    Prop :=
  (v.Inside (ipSrc iptr) ∧ ap.src = ipSrc iptr ∧ ap.srcPort = srcPortOf iptr
      ∧ direction = .outgoing) ∨
    (¬ v.Inside (ipSrc iptr) ∧ ap.src = ipDst iptr ∧ ap.srcPort = dstPortOf iptr
      ∧ direction = .incoming)

/-- The filter is on and is membership in the network: the packets that cross its
border are oriented, with the inner end as the source of pair and key, and the
others leave the box as their tick left it. -/
structure FiltersNet (v : NetValue) (c : Config) : Prop where
  on : c.options.netfilter = true
  oriented : ∀ iptr hwDir, (orient c iptr hwDir).isSome = true ↔ v.Crosses iptr
  pair : ∀ iptr hwDir flip direction, orient c iptr hwDir = some (flip, direction) →
    v.InnerEnd iptr (orientedPair iptr flip) direction
  key : ∀ e iptr hwDir f, acceptedFlow c e iptr hwDir = some f →
    v.InnerEnd iptr f.key f.direction
  others : ∀ (pl : Platform) e iptr hwDir (b : Box), b.config = c → ¬ v.Crosses iptr →
    handleIpPacket pl e iptr hwDir b = tick pl e.tick false e.t b

/-! ## Reading the value -/

theorem slash_notMem_spell (q : Quad) : '/' ∉ q.spell := by
  intro h
  rcases mem_spell h with hdigit | hdot
  · exact absurd hdigit (by decide)
  · exact absurd hdot (by decide)

/-- What is in front of the first slash. -/
theorem netPart_append {net : CString} (h : '/' ∉ net) (mask : CString) :
    netPart (net ++ '/' :: mask) = net := by
  show untilMark '/' (net ++ '/' :: mask) = _
  rw [untilMark_append h, untilMark_mark, List.append_nil]

/-- What is behind it. -/
theorem maskPart_append {net : CString} (h : '/' ∉ net) (mask : CString) :
    maskPart (net ++ '/' :: mask) = mask := by
  have hpos : ∀ c ∈ net, decide (c ≠ '/') = true := by
    intro c hc
    have hne : c ≠ '/' := fun he => h (he ▸ hc)
    simpa using hne
  rw [maskPart, List.dropWhile_append_of_pos hpos, List.dropWhile_cons_of_neg (by simp),
    List.tail_cons]

theorem netPart_spell (v : NetValue) : netPart v.spell = v.net.spell :=
  netPart_append (slash_notMem_spell v.net) v.mask.spell

theorem maskPart_spell (v : NetValue) : maskPart v.spell = v.mask.spell :=
  maskPart_append (slash_notMem_spell v.net) v.mask.spell

theorem isNumeric_of_digits {s : CString} (h : ∀ c ∈ s, c.isDigit = true) :
    isNumeric s = true := by
  simpa [isNumeric, List.dropWhile_eq_nil_iff] using h

theorem isNumeric_dotted (m : Quad) : isNumeric m.spell = false := by
  have hdot : '.' ∈ m.spell := by
    simp [Quad.spell]
  simp only [isNumeric, List.dropWhile_eq_nil_iff, decide_eq_false_iff_not]
  exact fun h => absurd (h '.' hdot) (by decide)

theorem atoi_length (n : MaskLength) : atoi n.digits = (digitsValue n.digits : Int) :=
  atoi_digits n.nonempty n.isDigits (Nat.lt_of_le_of_lt n.le (by decide))

/-- The mask for a length has that many leading bits. -/
theorem addrBit_lengthMask (left : Leftovers) {n k : Nat} (hn : n ≤ 32) (hk : k < 32) :
    addrBit (lengthMask left (n : Int)) k = decide (k < n) := by
  have hmask : lengthMask left (n : Int)
      = if n = 32 then htonl 0xffffffff else htonl (~~~ (0xffffffff >>> UInt32.ofNat n)) := by
    rw [lengthMask, shiftedOnes, if_pos (Int.natCast_nonneg n), Int.toNat_natCast]
    exact if_congr (by omega) rfl rfl
  have hall : ∀ n ≤ 32, ∀ k < 32,
      addrBit (if n = 32 then htonl 0xffffffff else htonl (~~~ (0xffffffff >>> UInt32.ofNat n))) k
        = decide (k < n) := by
    decide +kernel
  rw [hmask, hall n hn k hk]

/-- The mask a value gives. -/
def NetMask.value (left : Leftovers) : NetMask → UInt32
  | .length n => lengthMask left (digitsValue n.digits : Int)
  | .dotted m => m.addr

theorem addrBit_value (left : Leftovers) (mask : NetMask) {k : Nat} (hk : k < 32) :
    addrBit (mask.value left) k = mask.covers k := by
  cases mask with
  | length n => exact addrBit_lengthMask left n.le hk
  | dotted m => rfl

/-- What the accessor makes of a value: the filter is on, with the mask and the
masked network. -/
theorem getNetFilter_spell {inet : Inet} (hinet : ReadsQuads inet.aton) {v : NetValue}
    {config : StringMap} (hv : configGetString config "net-filter".toList = some v.spell)
    (left : Leftovers) (o : Options) : optionsConfigGetNetFilter config inet left o =
      ⟨{ o with
          netfilter := true
          netfilternet := v.net.addr &&& v.mask.value left
          netfiltermask := v.mask.value left }, true, []⟩ := by
  have hslash : '/' ∈ v.spell := List.mem_append_right _ List.mem_cons_self
  unfold optionsConfigGetNetFilter
  rw [hv]
  simp only [hslash, not_true_eq_false, if_false, netPart_spell, hinet v.net, maskPart_spell]
  cases hmask : v.mask with
  | length n =>
    have hle : ¬ (32 : Int) < (digitsValue n.digits : Int) := by
      have := n.le
      omega
    simp only [NetMask.spell, isNumeric_of_digits n.isDigits, if_true, atoi_length, hle, if_false,
      maskNet, NetMask.value]
  | dotted m =>
    simp only [NetMask.spell, isNumeric_dotted, Bool.false_eq_true, if_false, hinet m, maskNet,
      NetMask.value]

/-! ## Packets -/

/-- With this network and mask, `in_filter_net` is membership. -/
theorem inFilterNet_iff {o : Options} {v : NetValue} (left : Leftovers)
    (hnet : o.netfilternet = v.net.addr &&& v.mask.value left)
    (hmask : o.netfiltermask = v.mask.value left) (addr : UInt32) :
    inFilterNet o addr = true ↔ v.Inside addr := by
  rw [inFilterNet, hnet, hmask, beq_iff_eq, and_mask_eq_iff]
  refine forall₂_congr fun k hk => ?_
  rw [addrBit_value left v.mask hk]

section Orient

variable {c : Config} {v : NetValue} (hon : c.options.netfilter = true)
  (hin : ∀ addr, inFilterNet c.options addr = true ↔ v.Inside addr)

include hon hin

/-- With the filter on, a packet is oriented by which of its ends is inside. -/
theorem orient_eq_some_iff (iptr : Packet) (hwDir : Int) (flip : Bool) (direction : Direction) :
    orient c iptr hwDir = some (flip, direction) ↔
      (v.Inside (ipSrc iptr) ∧ ¬ v.Inside (ipDst iptr) ∧ flip = false ∧ direction = .outgoing)
        ∨ (v.Inside (ipDst iptr) ∧ ¬ v.Inside (ipSrc iptr) ∧ flip = true
          ∧ direction = .incoming) := by
  unfold orient
  rw [if_neg (by rw [hon]; decide), ← hin, ← hin]
  cases inFilterNet c.options (ipSrc iptr) with
  | false =>
    cases inFilterNet c.options (ipDst iptr) with
    | false => simp
    | true => simp [eq_comm]
  | true =>
    cases inFilterNet c.options (ipDst iptr) with
    | false => simp [eq_comm]
    | true => simp

/-- A packet that does not cross the border is junked. -/
theorem orient_isSome_iff (iptr : Packet) (hwDir : Int) :
    (orient c iptr hwDir).isSome = true ↔ v.Crosses iptr := by
  rw [Option.isSome_iff_exists, Prod.exists]
  simp only [orient_eq_some_iff hon hin]
  constructor
  · rintro ⟨flip, direction, ⟨hs, hd, -, -⟩ | ⟨hd, hs, -, -⟩⟩
    · exact Or.inl ⟨hs, hd⟩
    · exact Or.inr ⟨hd, hs⟩
  · rintro (⟨hs, hd⟩ | ⟨hd, hs⟩)
    · exact ⟨false, .outgoing, Or.inl ⟨hs, hd, rfl, rfl⟩⟩
    · exact ⟨true, .incoming, Or.inr ⟨hd, hs, rfl, rfl⟩⟩

theorem innerEnd_of_orient {iptr : Packet} {hwDir : Int} {flip : Bool} {direction : Direction}
    (h : orient c iptr hwDir = some (flip, direction)) :
    v.InnerEnd iptr (orientedPair iptr flip) direction := by
  rcases (orient_eq_some_iff hon hin iptr hwDir flip direction).mp h with
    ⟨hs, -, rfl, rfl⟩ | ⟨-, hs, rfl, rfl⟩
  · exact Or.inl ⟨hs, rfl, rfl, rfl⟩
  · exact Or.inr ⟨hs, rfl, rfl, rfl⟩

/-- The filter makes of the packets what it should. -/
theorem filtersNet_of_inside : FiltersNet v c where
  on := hon
  oriented := orient_isSome_iff hon hin
  pair := fun _ _ _ _ h => innerEnd_of_orient hon hin h
  key := by
    intro e iptr hwDir f hf
    unfold acceptedFlow flowOf at hf
    split at hf
    next => cases hf
    next =>
      split at hf
      next => cases hf
      next flip direction ho =>
        split at hf
        next => cases hf
        next key hkey =>
          cases hf
          obtain ⟨hsrc, -, hport, -⟩ := portFilter_some hkey
          have hinner := innerEnd_of_orient hon hin ho
          unfold NetValue.InnerEnd at hinner ⊢
          rw [hsrc, hport]
          exact hinner
  others := by
    intro pl e iptr hwDir b hb hout
    have hnone : orient c iptr hwDir = none := by
      rw [← Option.not_isSome_iff_eq_none, orient_isSome_iff hon hin]
      exact hout
    refine handleIpPacket_none ?_
    rw [hb, acceptedFlow, flowOf, hnone]
    split <;> rfl

end Orient

/-- A net filter in either notation is accepted, and from then on is membership
in its network. -/
theorem netFilter_cidr {inet : Inet} (hinet : ReadsQuads inet.aton) (v : NetValue)
    {config : StringMap} (hv : configGetString config "net-filter".toList = some v.spell)
    (left : Leftovers) :
    (∀ o, (optionsConfigGetNetFilter config inet left o).result = true) ∧
      ∀ (o : MakeOptions) (portList : List Int) (haveIpAddr : Bool) (ifIpAddr : UInt32),
        FiltersNet v ⟨(optionsMake inet left config o).options.toOptions, portList, haveIpAddr,
          ifIpAddr⟩ := by
  constructor
  · intro o
    rw [getNetFilter_spell hinet hv]
  · intro o portList haveIpAddr ifIpAddr
    -- the net filter is read last but one, and nothing touches these options behind it
    have hmade := congrArg Got.value (getNetFilter_spell hinet hv left
      { o.toOptions with promiscuousButChoosy := (optionsConfigGetPromiscuous config
        (o.promiscuous, o.promiscuousButChoosy)).value.2 })
    have hoptions : (optionsMake inet left config o).options.toOptions = _ := hmade
    rw [hoptions]
    exact filtersNet_of_inside rfl fun addr => inFilterNet_iff left rfl rfl addr

/-- 10.0.0.0/8. -/
def tenNet : NetValue where
  net := ⟨10, 0, 0, 0⟩
  mask := .length
    { digits := ['8']
      nonempty := by decide
      isDigits := List.all_eq_true.mp (by decide)
      le := by decide }

/-- The command line `-F 10.0.0.0/8`. -/
def tenConfig : StringMap := configSetString .leaf "net-filter".toList tenNet.spell

theorem netFilter_cidr_ten :
    ReadsQuads quadsOnly.aton ∧ configGetString tenConfig "net-filter".toList = some tenNet.spell ∧
      (∀ o, (optionsConfigGetNetFilter tenConfig quadsOnly ⟨0, 0⟩ o).result = true) ∧
      ∀ (o : MakeOptions) (portList : List Int) (haveIpAddr : Bool) (ifIpAddr : UInt32),
        FiltersNet tenNet ⟨(optionsMake quadsOnly ⟨0, 0⟩ tenConfig o).options.toOptions, portList,
          haveIpAddr, ifIpAddr⟩ :=
  have hten : configGetString tenConfig "net-filter".toList = some tenNet.spell := by
    rw [tenConfig, configGetString_set, if_pos rfl]
  ⟨quadsOnly_reads, hten, netFilter_cidr quadsOnly_reads tenNet hten ⟨0, 0⟩⟩

end Dotqoo.Config
