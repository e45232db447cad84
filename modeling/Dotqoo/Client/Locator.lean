import Dotqoo.Lib.Bisect
import Dotqoo.Lib.Bytes

/-!
# The locations of addresses

`IPLocator` of `mqtt_client.py`, which looks addresses up in a file of ranges. The
file begins with the offsets of the first and of the last entry of an index; an
entry has seven bytes, the start of its range and the offset of a record, and the
record has the end of the range and the text, or pointers to it.

Mirroring notes:
- The file is a list of bytes and a position. `none` is an exception: `struct.error`
  where a read comes back short, `IOError` for a seek in front of the file.
- Integers are unbounded, and `/` rounds down; `L`, `R` and the index count are
  `Int` because nothing keeps the two offsets in order.
- The decoding from GBK is a parameter, `none` where it raises.
-/

namespace Dotqoo.Client

open Dotqoo.Lib

/-! ## The file -/

/-- Reading a file, with its position. -/
abbrev FileM := StateT Nat Option

/-- The file and the header fields. -/
structure IPLocator where
  ipdb : List UInt8
  firstIndex : Nat
  lastIndex : Nat

/-- `curStartIp`, `curEndIp` and `curEndIpOffset`. -/
structure IpRange where
  startIp : Nat
  endIp : Nat
  endIpOffset : Nat
  deriving DecidableEq, Repr, Inhabited

/-- The range has this address. -/
def IpRange.Contains (e : IpRange) (ip : Nat) : Prop := e.startIp ≤ ip ∧ ip ≤ e.endIp

instance (e : IpRange) (ip : Nat) : Decidable (e.Contains ip) :=
  inferInstanceAs (Decidable (_ ∧ _))

/-- `'未找到该IP的地址'`. -/
def notFound : String := "未找到该IP的地址"

namespace IPLocator

variable (db : IPLocator)

/-- `indexCount`. -/
def indexCount : Int := ((db.lastIndex : Int) - db.firstIndex) / 7 + 1

/-- `ipdb.seek(offset)`. -/
def seek (offset : Int) : FileM Unit := fun _ =>
  if 0 ≤ offset then some ((), offset.toNat) else none

/-- `ipdb.seek(-1, 1)`. -/
def seekBack : FileM Unit := fun pos => if 1 ≤ pos then some ((), pos - 1) else none

/-- `ipdb.read(n)`: what there is, up to `n` bytes. -/
def read (n : Nat) : FileM (List UInt8) := fun pos =>
  some ((db.ipdb.drop pos).take n, pos + ((db.ipdb.drop pos).take n).length)

/-- `struct.unpack` of as many bytes as it needs. -/
def readUnpack (widths : List Nat) : FileM (List Nat) := do
  let str ← db.read widths.sum
  (unpackLe widths str : Option (List Nat))

/-- One byte, unpacked. -/
def readByte : FileM Nat := do
  match ← db.readUnpack [1] with
  | [byte] => pure byte
  | _ => failure

/-- `getLong3`; the default of `offset` is 0, which stays where it is. -/
def getLong3 (offset : Nat) : FileM Nat := do
  if offset ≠ 0 then seek offset
  match ← db.readUnpack [2, 1] with
  | [a, b] => pure ((b <<< 16) + a)
  | _ => failure

/-- The bytes in front of the first zero. -/
def bytesToZero : List UInt8 → Option (List UInt8)
  | [] => none
  | byte :: rest => if byte = 0 then some [] else (bytesToZero rest).map (byte :: ·)

/-- `getString`. -/
def getString (offset : Nat) : FileM (List UInt8) := do
  if offset ≠ 0 then seek offset
  fun pos => (bytesToZero (db.ipdb.drop pos)).map fun str => (str, pos + str.length + 1)

/-- `getAreaAddr`. -/
def getAreaAddr (offset : Nat) : FileM (List UInt8) := do
  if offset ≠ 0 then seek offset
  let byte ← db.readByte
  if byte = 0x01 ∨ byte = 0x02 then
    let p ← db.getLong3 0
    if p ≠ 0 then db.getString p else pure []
  else
    seekBack
    db.getString offset

/-- The country and the area of a record, with the place of the latter. -/
def getCountryAddr (offset : Nat) : FileM (List UInt8 × Nat) := do
  let byte ← db.readByte
  if byte = 0x01 then
    let countryOffset ← db.getLong3 0
    seek countryOffset
    let b ← db.readByte
    if b = 0x02 then
      let countryAddr ← db.getString (← db.getLong3 0)
      seek (countryOffset + 4)
      pure (countryAddr, 0)
    else
      let countryAddr ← db.getString countryOffset
      pure (countryAddr, 0)
  else if byte = 0x02 then
    let countryAddr ← db.getString (← db.getLong3 0)
    pure (countryAddr, offset + 8)
  else
    let countryAddr ← db.getString (offset + 4)
    pure (countryAddr, 0)

/-- `getAddr`. -/
def getAddr (offset : Nat) : FileM (List UInt8) := do
  seek (offset + 4)
  -- every branch ends with `getAreaAddr`, one of them with an argument
  let (countryAddr, areaOffset) ← db.getCountryAddr offset
  let areaAddr ← db.getAreaAddr areaOffset
  pure (countryAddr ++ [0x20] ++ areaAddr)

/-! ## The search -/

/-- `setIpRange`: the fields it sets. -/
def setIpRange (index : Int) : FileM IpRange := do
  seek (db.firstIndex + index * 7)
  match ← db.readUnpack [4, 2, 1] with
  | [curStartIp, of1, of2] =>
    let curEndIpOffset := of1 + (of2 <<< 16)
    seek curEndIpOffset
    match ← db.readUnpack [4] with
    | [curEndIp] => pure ⟨curStartIp, curEndIp, curEndIpOffset⟩
    | _ => failure
  | _ => failure

/-- The loop of `getIpAddr`: `L` and `R` behind it. -/
def search (ip : Nat) (L R : Int) : FileM (Int × Int) :=
  if L < R - 1 then do
    let cur ← db.setIpRange ((L + R) / 2)
    if ip = cur.startIp then pure ((L + R) / 2, R)
    else if cur.startIp < ip then search ip ((L + R) / 2) R
    else search ip L ((L + R) / 2)
  else pure (L, R)
termination_by (R - L).toNat
decreasing_by all_goals omega

variable (gbk : List UInt8 → Option String)

/-- `getIpAddr`. -/
def getIpAddr (ip : Nat) : FileM String := do
  let (L, R) ← db.search ip 0 (db.indexCount - 1)
  let cur ← db.setIpRange L
  let cur ← if ip &&& 0xffffff00 = 0xffffff00 then db.setIpRange R else pure cur
  if cur.startIp ≤ ip ∧ ip ≤ cur.endIp then
    let address ← db.getAddr cur.endIpOffset
    (gbk address : Option String)
  else pure notFound

/-- `__init__`, from the bytes of the file. The version is looked up and printed. -/
def init (ipdb : List UInt8) : Option IPLocator :=
  match unpackLe [4, 4] (ipdb.take 8) with
  | some [firstIndex, lastIndex] =>
    let db : IPLocator := ⟨ipdb, firstIndex, lastIndex⟩
    ((db.getIpAddr gbk 0xffffff00).run 8).map fun _ => db
  | _ => none

/-! ## Databases -/

/-- The range of the index entry at an offset of the file. -/
def rangeAt (offset : Nat) : Option IpRange :=
  match unpackLe [4, 2, 1] ((db.ipdb.drop offset).take 7) with
  | some [startIp, of1, of2] =>
    match unpackLe [4] ((db.ipdb.drop (of1 + (of2 <<< 16))).take 4) with
    | some [endIp] => some ⟨startIp, endIp, of1 + (of2 <<< 16)⟩
    | _ => none
  | _ => none

/-- The index has these entries: ranges one behind the other, of which the last is
255.255.255.0 to 255.255.255.255. -/
structure Indexes (entries : List IpRange) : Prop where
  index : db.lastIndex + 7 = db.firstIndex + 7 * entries.length
  entry : ∀ k e, entries[k]? = some e → db.rangeAt (db.firstIndex + 7 * k) = some e
  valid : ∀ e ∈ entries, e.startIp ≤ e.endIp
  ordered : ∀ k e e', entries[k]? = some e → entries[k + 1]? = some e' → e.endIp < e'.startIp
  last : ∃ top, entries.getLast? = some top ∧ top.startIp = 0xffffff00 ∧ top.endIp = 0xffffffff

/-- The starts of the entries, for the loop. -/
def startOf (entries : List IpRange) (k : Int) : Nat := (entries.getD k.toNat default).startIp

/-- The entry that `getIpAddr` looks at behind its loop. -/
def candidate (entries : List IpRange) (ip : Nat) : Int :=
  if ip &&& 0xffffff00 = 0xffffff00 then (bisect (startOf entries) ip 0 (db.indexCount - 1)).2
  else (bisect (startOf entries) ip 0 (db.indexCount - 1)).1

/-- The text of a record. -/
def addressText (offset : Nat) : Option String := ((db.getAddr offset).run' 0).bind gbk

variable {db}

/-- The text does not depend on where the file was read before. -/
theorem run_getAddr (offset pos : Nat) :
    (db.getAddr offset).run' pos = (db.getAddr offset).run' 0 :=
  rfl

theorem run_seek {offset : Int} (h : 0 ≤ offset) (pos : Nat) :
    (seek offset).run pos = some ((), offset.toNat) := if_pos h

theorem run_readUnpack {widths fields : List Nat} {pos : Nat}
    (h : unpackLe widths ((db.ipdb.drop pos).take widths.sum) = some fields) :
    ∃ pos', (db.readUnpack widths).run pos = some (fields, pos') := by
  refine ⟨pos + ((db.ipdb.drop pos).take widths.sum).length, ?_⟩
  show (unpackLe widths ((db.ipdb.drop pos).take widths.sum)).bind _ = _
  rw [h]
  rfl

/-- `setIpRange` reads the entry of the index. -/
theorem run_setIpRange {k : Nat} {e : IpRange} (h : db.rangeAt (db.firstIndex + 7 * k) = some e)
    (pos : Nat) : ∃ pos', (db.setIpRange k).run pos = some (e, pos') := by
  have hoffset : (db.firstIndex + (k : Int) * 7).toNat = db.firstIndex + 7 * k := by omega
  unfold rangeAt at h
  split at h
  next startIp of1 of2 hentry =>
    split at h
    next endIp hend =>
      cases h
      obtain ⟨pos₁, hread⟩ := run_readUnpack hentry
      obtain ⟨pos₂, hread'⟩ := run_readUnpack hend
      refine ⟨pos₂, ?_⟩
      rw [setIpRange, StateT.run_bind, run_seek (by omega), hoffset, Option.bind_eq_bind,
        Option.bind_some, StateT.run_bind, hread, Option.bind_eq_bind, Option.bind_some,
        StateT.run_bind, run_seek (Int.natCast_nonneg _), Int.toNat_natCast, Option.bind_eq_bind,
        Option.bind_some, StateT.run_bind, hread']
      rfl
    next => cases h
  next => cases h

/-- The 256 addresses that `getIpAddr` asks for apart are the highest. -/
theorem and_top_iff {ip : Nat} (hip : ip < 2 ^ 32) :
    ip &&& 0xffffff00 = 0xffffff00 ↔ 0xffffff00 ≤ ip := by
  have hmask := and_ones ip 24 8
  norm_num at hmask hip
  rw [hmask]
  omega

/-! ## The ranges -/

namespace Indexes

variable {entries : List IpRange} (h : db.Indexes entries)

include h

/-- The start of an entry, for the search. -/
theorem pos : 1 ≤ entries.length := by
  obtain ⟨top, htop, -⟩ := h.last
  exact List.length_pos_iff.mpr fun hnil => by simp [hnil] at htop

theorem indexCount_eq : db.indexCount = entries.length := by
  have hindex := h.index
  have hpos := h.pos
  unfold indexCount
  omega

/-- Ranges further on are higher. -/
theorem end_lt_start {j k : Nat} {e e' : IpRange} (hj : entries[j]? = some e)
    (hk : entries[k]? = some e') (hjk : j < k) : e.endIp < e'.startIp := by
  obtain ⟨d, rfl⟩ := Nat.exists_eq_add_of_lt hjk
  induction d generalizing e' with
  | zero => exact h.ordered j e e' hj hk
  | succ d ih =>
    have hlt : j + d + 1 < entries.length := by
      have := (List.getElem?_eq_some_iff.mp hk).1
      omega
    have hmid : entries[j + d + 1]? = some entries[j + d + 1] := List.getElem?_eq_getElem hlt
    have hbelow := ih hmid (by omega)
    have hvalid := h.valid _ (List.getElem_mem hlt)
    have hnext := h.ordered (j + d + 1) _ e' hmid (by rw [← hk]; rfl)
    omega

/-- Ranges that share an address are the same. -/
theorem unique {j k ip : Nat} {e e' : IpRange} (hj : entries[j]? = some e)
    (hk : entries[k]? = some e') (he : e.Contains ip) (he' : e'.Contains ip) : j = k := by
  rcases Nat.lt_trichotomy j k with hlt | heq | hgt
  · have := h.end_lt_start hj hk hlt
    have := he.2
    have := he'.1
    omega
  · exact heq
  · have := h.end_lt_start hk hj hgt
    have := he'.2
    have := he.1
    omega

/-- An entry that begins at or below an address is not behind the one that has it. -/
theorem index_le {j k ip : Nat} {e e' : IpRange} (hj : entries[j]? = some e) (he : e.Contains ip)
    (hk : entries[k]? = some e') (hstart : e'.startIp ≤ ip) : k ≤ j := by
  by_contra hlt
  have := h.end_lt_start hj hk (by omega)
  have := he.2
  omega

/-- An entry that begins above it is. -/
theorem lt_index {j k ip : Nat} {e e' : IpRange} (hj : entries[j]? = some e) (he : e.Contains ip)
    (hk : entries[k]? = some e') (hstart : ip < e'.startIp) : j < k := by
  by_contra hge
  rcases Nat.eq_or_lt_of_le (not_lt.mp hge) with heq | hlt
  · rw [heq, hj] at hk
    cases hk
    exact absurd he.1 (by omega)
  · have := h.end_lt_start hk hj hlt
    have := h.valid _ (List.mem_of_getElem? hk)
    have := he.1
    omega

/-! ## The search -/

/-- An index of the loop is one of the list. -/
theorem entry_at {k : Int} (h0 : 0 ≤ k) (hN : k ≤ db.indexCount - 1) :
    ∃ (n : Nat) (e : IpRange), k = n ∧ entries[n]? = some e ∧ startOf entries k = e.startIp := by
  rw [h.indexCount_eq] at hN
  have hlt : k.toNat < entries.length := by omega
  refine ⟨k.toNat, entries[k.toNat], by omega, List.getElem?_eq_getElem hlt, ?_⟩
  rw [startOf, List.getD_eq_getElem?_getD, List.getElem?_eq_getElem hlt, Option.getD_some]

/-- A pass of the loop compares the address with the start in the middle. -/
theorem run_pass (ip : Nat) {L R : Int} (hL : 0 ≤ L) (hR : R ≤ db.indexCount - 1)
    (hwide : L < R - 1) (pos : Nat) :
    ∃ pos', (db.search ip L R).run pos =
      if ip = startOf entries ((L + R) / 2) then some (((L + R) / 2, R), pos')
      else if startOf entries ((L + R) / 2) < ip then (db.search ip ((L + R) / 2) R).run pos'
      else (db.search ip L ((L + R) / 2)).run pos' := by
  obtain ⟨n, e, hn, he, hstart⟩ := h.entry_at (k := (L + R) / 2) (by omega) (by omega)
  obtain ⟨pos', hrun⟩ := run_setIpRange (h.entry n e he) pos
  refine ⟨pos', ?_⟩
  rw [hstart, search, if_pos hwide, StateT.run_bind, hn, hrun, Option.bind_eq_bind,
    Option.bind_some, apply_ite (fun m : FileM (Int × Int) => m.run pos'),
    apply_ite (fun m : FileM (Int × Int) => m.run pos')]
  rfl

/-- **The loop is a bisection** over the starts of the entries. -/
theorem run_search (ip : Nat) {L R : Int} (hL : 0 ≤ L) (hR : R ≤ db.indexCount - 1) (pos : Nat) :
    ∃ pos', (db.search ip L R).run pos = some (bisect (startOf entries) ip L R, pos') := by
  fun_induction bisect (startOf entries) ip L R generalizing pos with
  | case1 L R hwide hhit =>
    obtain ⟨pos', hpass⟩ := h.run_pass ip hL hR hwide pos
    rw [if_pos hhit] at hpass
    exact ⟨pos', hpass⟩
  | case2 L R hwide hmiss hsmall ih =>
    obtain ⟨pos₁, hpass⟩ := h.run_pass ip hL hR hwide pos
    rw [if_neg hmiss, if_pos hsmall] at hpass
    rw [hpass]
    exact ih (by omega) hR pos₁
  | case3 L R hwide hmiss hlarge ih =>
    obtain ⟨pos₁, hpass⟩ := h.run_pass ip hL hR hwide pos
    rw [if_neg hmiss, if_neg hlarge] at hpass
    rw [hpass]
    exact ih hL (by omega) pos₁
  | case4 L R hnarrow =>
    refine ⟨pos, ?_⟩
    rw [search, if_neg hnarrow]
    rfl

/-! ## The candidate -/

/-- The loop starts from all entries. -/
theorem bracket (ip : Nat) :
    Bracket (startOf entries) ip 0 (db.indexCount - 1) 0 (db.indexCount - 1) := by
  have hpos := h.pos
  have hcount := h.indexCount_eq
  exact ⟨le_rfl, by omega, le_rfl, Or.inl rfl, Or.inl rfl⟩

/-- **An entry that has the address is the candidate.** -/
theorem candidate_eq {ip : Nat} (hip : ip < 2 ^ 32) {j : Nat} {e : IpRange}
    (hj : entries[j]? = some e) (he : e.Contains ip) : candidate db entries ip = j := by
  obtain ⟨top, htop, htopStart, htopEnd⟩ := h.last
  have hpos := h.pos
  have hcount := h.indexCount_eq
  have hlast : entries[entries.length - 1]? = some top := by rw [← List.getLast?_eq_getElem?, htop]
  have hjlt : j < entries.length := (List.getElem?_eq_some_iff.mp hj).1
  obtain ⟨hbracket, hend⟩ := (h.bracket ip).bisect
  rw [candidate]
  generalize bisect (startOf entries) ip 0 (db.indexCount - 1) = LR at hbracket hend
  obtain ⟨L, R⟩ := LR
  obtain ⟨l, el, hl, hel, hstartL⟩ :=
    h.entry_at hbracket.lo_le (le_trans hbracket.le hbracket.le_hi)
  obtain ⟨r, er, hr, her, hstartR⟩ :=
    h.entry_at (le_trans hbracket.lo_le hbracket.le) hbracket.le_hi
  have hle := hbracket.le
  have hhi := hbracket.le_hi
  simp only at hend hle hhi hl hr
  by_cases hip' : ip &&& 0xffffff00 = 0xffffff00
  · -- the upper candidate was never moved
    rw [if_pos hip']
    rw [and_top_iff hip] at hip'
    have hjlast := h.index_le hj he hlast (by omega)
    rcases hbracket.right with heq | hlt
    · simp only at heq
      omega
    · have := h.lt_index hj he her (hstartR ▸ hlt)
      omega
  · rw [if_neg hip']
    rw [and_top_iff hip] at hip'
    have hjlast := h.lt_index hj he hlast (by omega)
    have hlj : l ≤ j := by
      rcases hbracket.left with heq | hstart
      · simp only at heq
        omega
      · exact h.index_le hj he hel (hstartL ▸ hstart)
    rcases hend with hhit | hnear
    · have helip : el.Contains ip :=
        ⟨(hstartL ▸ hhit).le, by
          have := h.valid _ (List.mem_of_getElem? hel)
          rw [hstartL] at hhit
          omega⟩
      rw [hl, h.unique hel hj helip he]
    · rcases hbracket.right with heq | hlt
      · simp only at heq
        omega
      · have := h.lt_index hj he her (hstartR ▸ hlt)
        omega

/-- The candidate is an entry. -/
theorem candidate_mem (ip : Nat) :
    ∃ (j : Nat) (e : IpRange), candidate db entries ip = j ∧ entries[j]? = some e := by
  obtain ⟨hbracket, -⟩ := (h.bracket ip).bisect
  rw [candidate]
  split
  · obtain ⟨j, e, hj, he, -⟩ :=
      h.entry_at (le_trans hbracket.lo_le hbracket.le) hbracket.le_hi
    exact ⟨j, e, hj, he⟩
  · obtain ⟨j, e, hj, he, -⟩ := h.entry_at hbracket.lo_le (le_trans hbracket.le hbracket.le_hi)
    exact ⟨j, e, hj, he⟩

/-- **The answer** is read off the candidate. -/
theorem run_getIpAddr {ip j : Nat} {e : IpRange} (hcand : candidate db entries ip = j)
    (hj : entries[j]? = some e) (gbk : List UInt8 → Option String) (pos : Nat) :
    (db.getIpAddr gbk ip).run' pos =
      if e.Contains ip then db.addressText gbk e.endIpOffset else some notFound := by
  obtain ⟨hbracket, -⟩ := (h.bracket ip).bisect
  obtain ⟨pos₁, hsearch⟩ := h.run_search ip le_rfl le_rfl pos
  rw [candidate] at hcand
  generalize bisect (startOf entries) ip 0 (db.indexCount - 1) = LR at hbracket hsearch hcand
  obtain ⟨L, R⟩ := LR
  obtain ⟨l, el, hl, hel, -⟩ := h.entry_at hbracket.lo_le (le_trans hbracket.le hbracket.le_hi)
  obtain ⟨pos₂, hrunL⟩ := run_setIpRange (h.entry l el hel) pos₁
  obtain ⟨pos₃, hrunE⟩ := run_setIpRange (h.entry j e hj) pos₂
  simp only at hl hcand
  -- both ways the fields are those of the candidate when the ranges are compared
  have hrun : ∃ pos', (db.getIpAddr gbk ip).run pos =
      (if e.startIp ≤ ip ∧ ip ≤ e.endIp then do
        let address ← db.getAddr e.endIpOffset
        (gbk address : Option String)
      else pure notFound : FileM String).run pos' := by
    by_cases htop : ip &&& 0xffffff00 = 0xffffff00
    · rw [if_pos htop] at hcand
      refine ⟨pos₃, ?_⟩
      simp only [getIpAddr, StateT.run_bind, hsearch, hl, hrunL, hcand, hrunE, if_pos htop,
        Option.bind_eq_bind, Option.bind_some]
    · rw [if_neg htop] at hcand
      refine ⟨pos₂, ?_⟩
      have hlj : l = j := by omega
      subst hlj
      cases hel.symm.trans hj
      simp only [getIpAddr, StateT.run_bind, hsearch, hl, hrunL, if_neg htop,
        Option.bind_eq_bind, Option.bind_some, pure_bind]
  obtain ⟨pos', hrun⟩ := hrun
  rw [StateT.run'_eq, hrun]
  by_cases hin : e.startIp ≤ ip ∧ ip ≤ e.endIp
  · rw [if_pos hin, if_pos (show e.Contains ip from hin), addressText, ← run_getAddr _ pos',
      StateT.run'_eq, StateT.run_bind]
    rcases (db.getAddr e.endIpOffset).run pos' with _ | ⟨address, pos''⟩
    · rfl
    · show Option.map _ ((gbk address).bind _) = gbk address
      cases gbk address <;> rfl
  · rw [if_neg hin, if_neg (show ¬ e.Contains ip from hin)]
    rfl

/-- The version, looked up and printed, is the text of the last entry. -/
theorem run_version {top : IpRange} (htop : entries.getLast? = some top)
    (gbk : List UInt8 → Option String) (pos : Nat) :
    (db.getIpAddr gbk 0xffffff00).run' pos = db.addressText gbk top.endIpOffset := by
  obtain ⟨top', htop', hstart, hend⟩ := h.last
  cases htop'.symm.trans htop
  rw [List.getLast?_eq_getElem?] at htop
  have hin : top.Contains 0xffffff00 := ⟨by omega, by omega⟩
  rw [h.run_getIpAddr (h.candidate_eq (by decide) htop hin) htop, if_pos hin]

end Indexes

/-- Of a file with an index, the constructor asks that the text of its last entry decodes. -/
theorem init_eq_some_iff {ipdb : List UInt8} {entries : List IpRange} {top : IpRange}
    (hheader : unpackLe [4, 4] (ipdb.take 8) = some [db.firstIndex, db.lastIndex])
    (hipdb : db.ipdb = ipdb) (h : db.Indexes entries) (htop : entries.getLast? = some top)
    (gbk : List UInt8 → Option String) :
    init gbk ipdb = some db ↔ (db.addressText gbk top.endIpOffset).isSome := by
  subst hipdb
  rw [← h.run_version htop gbk 8, init, hheader, StateT.run'_eq]
  show ((db.getIpAddr gbk 0xffffff00).run 8).map (fun _ => db) = some db ↔ _
  cases (db.getIpAddr gbk 0xffffff00).run 8 <;> simp

/-- **A search for a location** ends, and answers with the text of the one entry that has
the address, or with the text for none. The text of a record may still be one that raises
where it is decoded. -/
theorem getIpAddr_correct {entries : List IpRange} (h : db.Indexes entries)
    (gbk : List UInt8 → Option String) (ip : UInt32) (pos : Nat) :
    (∃ LR, (db.search ip.toNat 0 (db.indexCount - 1)).run' pos = some LR) ∧
    (∀ e ∈ entries, e.Contains ip.toNat →
      (∀ e' ∈ entries, e'.Contains ip.toNat → e' = e) ∧
      (db.getIpAddr gbk ip.toNat).run' pos = db.addressText gbk e.endIpOffset) ∧
    ((∀ e ∈ entries, ¬ e.Contains ip.toNat) →
      (db.getIpAddr gbk ip.toNat).run' pos = some notFound) := by
  refine ⟨?_, ?_, ?_⟩
  · obtain ⟨pos', hsearch⟩ := h.run_search ip.toNat le_rfl le_rfl pos
    exact ⟨_, by rw [StateT.run'_eq, hsearch]; rfl⟩
  · intro e he hin
    obtain ⟨j, hj⟩ := List.mem_iff_getElem?.mp he
    have hcand := h.candidate_eq ip.toNat_lt hj hin
    refine ⟨fun e' he' hin' => ?_, by rw [h.run_getIpAddr hcand hj, if_pos hin]⟩
    obtain ⟨k, hk⟩ := List.mem_iff_getElem?.mp he'
    cases h.unique hk hj hin' hin
    exact Option.some.inj (hk.symm.trans hj)
  · intro hnone
    obtain ⟨j, e, hcand, hj⟩ := h.candidate_mem ip.toNat
    rw [h.run_getIpAddr hcand hj, if_neg (hnone e (List.mem_of_getElem? hj))]

/-- Two addresses have a place, one lies between the entries of this file. -/
theorem getIpAddr_correct_four :
    let ascii : List UInt8 → Option String := fun bytes =>
      some (String.ofList (bytes.map fun b => Char.ofNat b.toNat))
    let db : IPLocator := ⟨[8, 0, 0, 0, 29, 0, 0, 0,
      0, 0, 0, 1, 36, 0, 0, 0, 0, 0, 2, 44, 0, 0, 0, 0, 0, 4, 52, 0, 0, 0, 255, 255, 255, 60, 0, 0,
      255, 255, 255, 1, 0x41, 0, 0x42, 0, 255, 255, 255, 2, 0x43, 0, 0x44, 0,
      255, 255, 255, 4, 0x45, 0, 0x46, 0, 255, 255, 255, 255, 0x47, 0, 0x48, 0], 8, 29⟩
    (db.getIpAddr ascii 0x02030405).run' 8 = some "C D" ∧
      (db.getIpAddr ascii 0x04050607).run' 8 = some "E F" ∧
      (db.getIpAddr ascii 0x03000000).run' 8 = some notFound := by
  intro ascii db
  have h : db.Indexes [⟨0x01000000, 0x01ffffff, 36⟩, ⟨0x02000000, 0x02ffffff, 44⟩,
      ⟨0x04000000, 0x04ffffff, 52⟩, ⟨0xffffff00, 0xffffffff, 60⟩] := by
    refine ⟨by decide, ?_, by decide, ?_, ⟨_, rfl, rfl, rfl⟩⟩
    · rintro (_ | _ | _ | _ | k) e he
      · cases he
        decide
      · cases he
        decide
      · cases he
        decide
      · cases he
        decide
      · cases he
    · rintro (_ | _ | _ | _ | k) e e' he he'
      · cases he
        cases he'
        decide
      · cases he
        cases he'
        decide
      · cases he
        cases he'
        decide
      · cases he'
      · cases he'
  exact ⟨((getIpAddr_correct h ascii 0x02030405 8).2.1 ⟨0x02000000, 0x02ffffff, 44⟩
      (by simp) (by decide)).2,
    ((getIpAddr_correct h ascii 0x04050607 8).2.1 ⟨0x04000000, 0x04ffffff, 52⟩
      (by simp) (by decide)).2,
    (getIpAddr_correct h ascii 0x03000000 8).2.2 (by decide)⟩

end IPLocator

end Dotqoo.Client
