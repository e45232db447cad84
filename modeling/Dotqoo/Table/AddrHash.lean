import Dotqoo.Table.Hash

/-!
# `addr_hash.c`: the history table's keys

An `addr_pair` names a conversation: protocol, and address and port of either
side. Addresses are the raw `s_addr` values; on the little-endian hosts this
development is about, the first octet of the dotted form is the low byte.
`compare` reads the five fields and nothing else, so two keys that differ only
in the padding of the C structure are one value here.

`addrHash` is the parameter block that `addr_hash_create` installs. The hash
value is below `0xFFF`, so the last bucket of the 4096 is never used.
-/

namespace Dotqoo.Table

/-- `addr_pair`. -/
structure AddrPair where
  protocol : UInt16
  srcPort : UInt16
  src : UInt32
  dstPort : UInt16
  dst : UInt32
  deriving DecidableEq, Repr

/-- `hash_table_size`. -/
def hashTableSize : Nat := 4096

/-- `compare` of addr_hash.c. -/
def compareAddr (aa bb : AddrPair) : Bool :=
  aa.src == bb.src && aa.srcPort == bb.srcPort && aa.dst == bb.dst
    && aa.dstPort == bb.dstPort && aa.protocol == bb.protocol

/-- `hash_uint32`: the sum of the four bytes. -/
def hashUint32 (n : UInt32) : Nat :=
  (n &&& 0x000000FF).toNat + ((n &&& 0x0000FF00) >>> 8).toNat
    + ((n &&& 0x00FF0000) >>> 16).toNat + ((n &&& 0xFF000000) >>> 24).toNat

/-- `hash` of addr_hash.c. -/
def hashAddr (ap : AddrPair) : Nat :=
  ((hashUint32 ap.src + ap.srcPort.toNat) % 0xFFF + hashUint32 ap.dst + ap.dstPort.toNat) % 0xFFF

theorem compareAddr_iff (aa bb : AddrPair) : compareAddr aa bb = true ↔ aa = bb := by
  cases aa
  cases bb
  simp only [compareAddr, Bool.and_eq_true, beq_iff_eq, AddrPair.mk.injEq]
  constructor
  · intro h
    obtain ⟨⟨⟨⟨h1, h2⟩, h3⟩, h4⟩, h5⟩ := h
    exact ⟨h5, h2, h1, h4, h3⟩
  · intro h
    obtain ⟨h5, h2, h1, h4, h3⟩ := h
    exact ⟨⟨⟨⟨h1, h2⟩, h3⟩, h4⟩, h5⟩

/-- What `addr_hash_create` puts into its `hash_type`. -/
def addrHash : HashFns AddrPair where
  compare := compareAddr
  hash := hashAddr
  size := hashTableSize
  compare_iff := compareAddr_iff
  hash_lt := fun ap => by
    have := Nat.mod_lt
      ((hashUint32 ap.src + ap.srcPort.toNat) % 0xFFF + hashUint32 ap.dst + ap.dstPort.toNat)
      (show 0 < 0xFFF by decide)
    show hashAddr ap < 4096
    unfold hashAddr
    omega

end Dotqoo.Table
