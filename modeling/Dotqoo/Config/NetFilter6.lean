import Mathlib.Data.List.GetD
import Dotqoo.Config.NetFilter
import Dotqoo.Config.Malformed

/-!
# The IPv6 net filter

`net-filter6: fe80::/10`: a prefix of an address. `options_config_get_net_filter6` writes
the mask byte by byte over the one that is there, first the bytes the prefix
covers and then the byte it ends in. Nothing clears the bytes behind that one, so
the mask is right exactly if they are zero already. `options_set_defaults` puts
`ffff::` there, and a prefix of at most eight bits leaves a byte of that behind.

Addresses are lists of 16 bytes, and `bit6` counts their bits from the front.
-/

namespace Dotqoo.Config

open Dotqoo.Lib

/-! ## Prefixes -/

/-- What is documented of `inet_pton` for `AF_INET6`: it gives 16 bytes, and no
text of an address has a `/` in it. -/
structure ReadsAddresses (pton6 : CString → Option (List UInt8)) : Prop where
  length : ∀ s addr, pton6 s = some addr → addr.length = 16
  noSlash : ∀ s addr, pton6 s = some addr → '/' ∉ s

/-- A prefix length: digits that make a number from 1 to 128. -/
structure PrefixLength where
  digits : CString
  nonempty : digits ≠ []
  isDigits : ∀ c ∈ digits, c.isDigit = true
  pos : 1 ≤ digitsValue digits
  le : digitsValue digits ≤ 128

/-- An address with a prefix length; `inet_pton` reads the address. -/
structure Net6Value (inet : Inet) where
  text : CString
  addr : List UInt8
  valid : inet.pton6 text = some addr
  length : PrefixLength

/-- The value of the directive. -/
def Net6Value.spell {inet : Inet} (v : Net6Value inet) : CString :=
  v.text ++ '/' :: v.length.digits

/-- How many bits the prefix has. -/
def Net6Value.bits {inet : Inet} (v : Net6Value inet) : Nat := digitsValue v.length.digits

/-- Bit `k` of an IPv6 address, counted from the front. -/
def bit6 (addr : List UInt8) (k : Nat) : Bool := (addr.getD (k / 8) 0).toNat.testBit (7 - k % 8)

/-- The filter is on, its mask is the leading bits of the prefix, and its network
is the address under that mask. -/
structure PrefixExact {inet : Inet} (v : Net6Value inet) (g : Got Net6) : Prop where
  result : g.result = true
  on : g.value.netfilter6 = true
  lengths : g.value.netfilter6mask.length = 16 ∧ g.value.netfilter6net.length = 16
  mask : ∀ k < 128, bit6 g.value.netfilter6mask k = decide (k < v.bits)
  net : ∀ k < 128, bit6 g.value.netfilter6net k = (bit6 v.addr k && decide (k < v.bits))

/-- Behind the byte in which a prefix of `n` bits ends there are zeros only. -/
def ClearBehind (n : Nat) (mask : List UInt8) : Prop := ∀ b ∈ mask.drop ((n + 7) / 8), b = 0

/-! ## Bits and bytes -/

theorem byte_eq_zero_iff (b : UInt8) : b = 0 ↔ ∀ j < 8, b.toNat.testBit j = false := by
  constructor
  · rintro rfl j _
    exact Nat.zero_testBit j
  · intro h
    rw [← UInt8.toNat_inj]
    refine Nat.eq_of_testBit_eq fun j => ?_
    rw [UInt8.toNat_zero, Nat.zero_testBit]
    by_cases hj : j < 8
    · exact h j hj
    · exact Nat.testBit_lt_two_pow (Nat.lt_of_lt_of_le b.toNat_lt
        (Nat.pow_le_pow_right (by decide) (Nat.le_of_not_lt hj)))

/-- The byte in which a prefix ends has the last `r` bits of it. -/
theorem testBit_part {r j : Nat} (hr : r < 8) (hj : j < 8) :
    (UInt8.ofNat (0xff <<< (8 - r))).toNat.testBit (7 - j) = decide (j < r) := by
  have hall : ∀ r < 8, ∀ j < 8,
      (UInt8.ofNat (0xff <<< (8 - r))).toNat.testBit (7 - j) = decide (j < r) := by
    decide
  exact hall r hr j hj

/-- The mask byte by byte: covered, ended in, or left as it was. -/
theorem getD_lengthMask6 (n i : Nat) (mask : List UInt8) :
    (lengthMask6 n mask).getD i 0 =
      if i < n / 8 then 0xff
      else if i = n / 8 ∧ n % 8 ≠ 0 then UInt8.ofNat (0xff <<< (8 - n % 8))
      else mask.getD i 0 := by
  have hcovered : (List.replicate (n / 8) (0xff : UInt8)).length = n / 8 := List.length_replicate
  unfold lengthMask6
  by_cases hi : i < n / 8
  · rw [if_pos hi, List.getD_append _ _ _ _ (by rw [hcovered]; exact hi)]
    simp [List.getD_eq_getElem?_getD, hi]
  · rw [if_neg hi, List.getD_append_right _ _ _ _ (by rw [hcovered]; omega), hcovered]
    obtain ⟨d, rfl⟩ := Nat.exists_eq_add_of_le (Nat.le_of_not_lt hi)
    rw [Nat.add_sub_cancel_left]
    by_cases hr : n % 8 = 0
    · rw [if_pos hr, if_neg (fun h => h.2 hr)]
      simp [List.getD_eq_getElem?_getD]
    · rw [if_neg hr]
      cases d with
      | zero => simp [hr]
      | succ d =>
        rw [if_neg (by omega)]
        simp [List.getD_eq_getElem?_getD, Nat.add_assoc, Nat.add_comm 1 d]

theorem length_lengthMask6 {n : Nat} (hn : n ≤ 128) {mask : List UInt8} (hmask : mask.length = 16) :
    (lengthMask6 n mask).length = 16 := by
  unfold lengthMask6
  rw [List.length_append, List.length_replicate]
  split
  · rw [List.length_drop]
    omega
  · rw [List.length_cons, List.length_drop]
    omega

/-- **The mask for a prefix is right exactly if it was clear behind it.** -/
theorem bit6_lengthMask6_iff {n : Nat} {mask : List UInt8} (hmask : mask.length = 16) :
    (∀ k < 128, bit6 (lengthMask6 n mask) k = decide (k < n)) ↔ ClearBehind n mask := by
  -- the bits of the bytes that are written are right in any case
  have hwritten : ∀ k, k / 8 < (n + 7) / 8 → bit6 (lengthMask6 n mask) k = decide (k < n) := by
    intro k hk
    rw [bit6, getD_lengthMask6]
    by_cases hfull : k / 8 < n / 8
    · have hones : ∀ j < 8, (0xff : UInt8).toNat.testBit (7 - j) = true := by decide
      rw [if_pos hfull, hones _ (Nat.mod_lt k (by decide)), decide_eq_true (by omega)]
    · rw [if_neg hfull, if_pos (by omega), testBit_part (Nat.mod_lt n (by decide))
        (Nat.mod_lt k (by decide))]
      exact decide_eq_decide.mpr (by omega)
  have hbehind : ∀ k, (n + 7) / 8 ≤ k / 8 →
      bit6 (lengthMask6 n mask) k = (mask.getD (k / 8) 0).toNat.testBit (7 - k % 8) := by
    intro k hk
    rw [bit6, getD_lengthMask6, if_neg (by omega), if_neg (by omega)]
  constructor
  · intro h b hb
    obtain ⟨i, hi, rfl⟩ := List.mem_iff_getElem.mp hb
    rw [List.length_drop] at hi
    rw [byte_eq_zero_iff]
    intro j hj
    have hk : (8 * ((n + 7) / 8 + i) + (7 - j)) / 8 = (n + 7) / 8 + i := by omega
    have hbit := h (8 * ((n + 7) / 8 + i) + (7 - j)) (by omega)
    rw [hbehind _ (by omega), decide_eq_false (by omega), hk,
      List.getD_eq_getElem _ _ (by omega : (n + 7) / 8 + i < mask.length)] at hbit
    rw [List.getElem_drop]
    rwa [show 7 - (8 * ((n + 7) / 8 + i) + (7 - j)) % 8 = j by omega] at hbit
  · intro h k hk
    by_cases hw : k / 8 < (n + 7) / 8
    · exact hwritten k hw
    · have hlt : k / 8 < mask.length := by omega
      have hzero : mask[k / 8] = 0 := by
        refine h _ (List.mem_iff_getElem.mpr ⟨k / 8 - (n + 7) / 8, ?_, ?_⟩)
        · rw [List.length_drop]
          omega
        · rw [List.getElem_drop]
          congr 1
          omega
      rw [hbehind k (by omega), List.getD_eq_getElem _ _ hlt, hzero, UInt8.toNat_zero,
        Nat.zero_testBit, decide_eq_false (by omega)]

theorem getD_and : ∀ (x y : List UInt8) (i : Nat),
    (List.zipWith (· &&& ·) x y).getD i 0 = x.getD i 0 &&& y.getD i 0
  | [], y, i => by simp
  | a :: x, [], i => by simp
  | a :: x, b :: y, 0 => rfl
  | a :: x, b :: y, i + 1 => by
    simpa using getD_and x y i

@[simp] theorem bit6_and (x y : List UInt8) (k : Nat) :
    bit6 (List.zipWith (· &&& ·) x y) k = (bit6 x k && bit6 y k) := by
  rw [bit6, getD_and, UInt8.toNat_and, Nat.testBit_and, bit6, bit6]

/-! ## The accessor -/

/-- What the accessor makes of a value with a prefix length. -/
theorem getNetFilter6_spell {inet : Inet} (hinet : ReadsAddresses inet.pton6) (v : Net6Value inet)
    {config : StringMap} (hv : configGetString config "net-filter6".toList = some v.spell)
    (o : Net6) : optionsConfigGetNetFilter6 config inet o =
      ⟨{ netfilter6 := true
         netfilter6net := List.zipWith (· &&& ·) v.addr (lengthMask6 v.bits o.netfilter6mask)
         netfilter6mask := lengthMask6 v.bits o.netfilter6mask }, true, []⟩ := by
  have hnoSlash := hinet.noSlash v.text v.addr v.valid
  have hslash : '/' ∈ v.spell := List.mem_append_right _ List.mem_cons_self
  have hnet : netPart v.spell = v.text := netPart_append hnoSlash v.length.digits
  have hmask : maskPart v.spell = v.length.digits := maskPart_append hnoSlash v.length.digits
  have hatoi : atoi v.length.digits = (v.bits : Int) :=
    atoi_digits v.length.nonempty v.length.isDigits (Nat.lt_of_le_of_lt v.length.le (by decide))
  have hle : v.bits ≤ 128 := v.length.le
  have hpos : 1 ≤ v.bits := v.length.pos
  unfold optionsConfigGetNetFilter6
  rw [hv]
  simp only [hslash, not_true_eq_false, if_false, hnet, v.valid, hmask,
    isNumeric_of_digits v.length.isDigits, if_true, hatoi]
  -- `n` fits its `unsigned int`
  simp (disch := omega) only [Int.emod_eq_of_lt, Int.toNat_natCast]
  have hrange : ¬ (128 < v.bits ∨ v.bits < 1) := by omega
  simp only [Bool.or_eq_true, decide_eq_true_eq, hrange, if_false, maskNet6]

/-- **A prefix gives the right mask exactly if the old one was clear behind it.**
For every IPv6 address, every prefix length and whatever the mask was; after the
defaults the lengths for which it does are those from 9 on. -/
theorem prefixExact_iff {inet : Inet} (hinet : ReadsAddresses inet.pton6) (v : Net6Value inet)
    {config : StringMap} (hv : configGetString config "net-filter6".toList = some v.spell) :
    (∀ o : Net6, o.netfilter6mask.length = 16 →
      (PrefixExact v (optionsConfigGetNetFilter6 config inet o) ↔
        ClearBehind v.bits o.netfilter6mask)) ∧
    (PrefixExact v (optionsConfigGetNetFilter6 config inet makeDefaults.net6) ↔ 9 ≤ v.bits) := by
  have hiff : ∀ o : Net6, o.netfilter6mask.length = 16 →
      (PrefixExact v (optionsConfigGetNetFilter6 config inet o) ↔
        ClearBehind v.bits o.netfilter6mask) := by
    intro o ho
    have hlength := length_lengthMask6 v.length.le ho
    rw [getNetFilter6_spell hinet v hv o, ← bit6_lengthMask6_iff ho]
    constructor
    · intro h
      exact h.mask
    · intro h
      refine ⟨rfl, rfl, ⟨hlength, ?_⟩, h, fun k hk => ?_⟩
      · show (List.zipWith _ _ _).length = 16
        rw [List.length_zipWith, hinet.length v.text v.addr v.valid]
        exact (congrArg (min 16) hlength).trans (by decide)
      · show bit6 (List.zipWith _ _ _) k = _
        rw [bit6_and, h k hk]
  refine ⟨hiff, ?_⟩
  rw [hiff makeDefaults.net6 rfl]
  -- of the default mask the first two bytes are set
  have hall : ∀ m ≤ 16, (∀ b ∈ makeDefaults.net6.netfilter6mask.drop m, b = 0) ↔ 2 ≤ m := by
    decide +kernel
  have hle : v.bits ≤ 128 := v.length.le
  rw [ClearBehind, hall _ (by omega)]
  omega

/-! ## Link-local prefixes -/

/-- A parser that knows `fe80::`, and no other address. -/
def linkLocalOnly : Inet where
  aton := fun _ => none
  pton6 := fun s =>
    if s = "fe80::".toList then some [0xfe, 0x80, 0, 0, 0, 0, 0, 0, 0, 0, 0, 0, 0, 0, 0, 0]
    else none

theorem linkLocalOnly_reads : ReadsAddresses linkLocalOnly.pton6 where
  length := by
    intro s addr h
    simp only [linkLocalOnly] at h
    split at h
    next => cases h; rfl
    next => cases h
  noSlash := by
    intro s addr h
    simp only [linkLocalOnly] at h
    split at h
    next hs => rw [hs]; decide
    next => cases h

/-- `fe80::` with a prefix length. -/
def linkLocal (length : PrefixLength) : Net6Value linkLocalOnly where
  text := "fe80::".toList
  addr := [0xfe, 0x80, 0, 0, 0, 0, 0, 0, 0, 0, 0, 0, 0, 0, 0, 0]
  valid := by simp [linkLocalOnly]
  length := length

/-- `/10`. -/
def tenBits : PrefixLength :=
  ⟨"10".toList, by decide, List.all_eq_true.mp (by decide), by decide, by decide⟩

/-- `/8`. -/
def eightBits : PrefixLength :=
  ⟨"8".toList, by decide, List.all_eq_true.mp (by decide), by decide, by decide⟩

/-- A configuration with the directive. -/
def net6Config (v : Net6Value linkLocalOnly) : StringMap :=
  configSetString .leaf "net-filter6".toList v.spell

theorem net6Config_get (v : Net6Value linkLocalOnly) :
    configGetString (net6Config v) "net-filter6".toList = some v.spell := by
  rw [net6Config, configGetString_set, if_pos rfl]

theorem prefixExact_iff_ten :
    (∀ o : Net6, o.netfilter6mask.length = 16 →
      (PrefixExact (linkLocal tenBits)
          (optionsConfigGetNetFilter6 (net6Config (linkLocal tenBits)) linkLocalOnly o) ↔
        ClearBehind 10 o.netfilter6mask)) ∧
    (PrefixExact (linkLocal tenBits) (optionsConfigGetNetFilter6 (net6Config (linkLocal tenBits))
        linkLocalOnly makeDefaults.net6) ↔ 9 ≤ 10) :=
  prefixExact_iff linkLocalOnly_reads (linkLocal tenBits) (net6Config_get _)

/-- The mask for `fe80::/8` keeps the second byte of the default: bit 8 is set. -/
theorem eightBits_not_exact : ¬ PrefixExact (linkLocal eightBits)
    (optionsConfigGetNetFilter6 (net6Config (linkLocal eightBits)) linkLocalOnly
      makeDefaults.net6) := by
  intro h
  have hbit := h.mask 8 (by decide)
  revert hbit
  decide

end Dotqoo.Config
