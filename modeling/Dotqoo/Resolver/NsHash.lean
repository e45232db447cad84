import Dotqoo.Table.AddrHash

/-!
# `ns_hash.c`: the keys of the name cache

The cache takes pointers to a `struct addr_storage` for keys, and its functions
read a `struct in6_addr` there. So a key is the first sixteen bytes of the
storage: the family, the length and the first half of the union. `in6_storage_iff`
says which addresses that tells apart.

`struct in6_addr` is four words here, as `s6_addr32` has them; the hosts are
little-endian ones.
-/

namespace Dotqoo.Resolver

open Dotqoo.Table

/-- `struct in6_addr`. -/
structure In6Addr where
  s0 : UInt32
  s1 : UInt32
  s2 : UInt32
  s3 : UInt32
  deriving DecidableEq, Repr

/-- `struct addr_storage`. -/
structure AddrStorage where
  af : UInt32
  len : UInt32
  addr : In6Addr
  deriving DecidableEq, Repr

/-- What an `in6_addr` pointer finds at the beginning of a storage. -/
def AddrStorage.in6 (a : AddrStorage) : In6Addr := ⟨a.af, a.len, a.addr.s0, a.addr.s1⟩

/-- `ns_hash_compare`. -/
def nsHashCompare (aa bb : In6Addr) : Bool :=
  aa.s0 == bb.s0 && aa.s1 == bb.s1 && aa.s2 == bb.s2 && aa.s3 == bb.s3

/-- `ns_hash_hash`, with the `hash_uint32` of addr_hash.c. -/
def nsHashHash (key : In6Addr) : Nat :=
  (hashUint32 key.s0 + hashUint32 key.s1 + hashUint32 key.s2 + hashUint32 key.s3) % 0xFF

theorem nsHashCompare_iff (aa bb : In6Addr) : nsHashCompare aa bb = true ↔ aa = bb := by
  cases aa
  cases bb
  simp [nsHashCompare, and_assoc]

/-- What `ns_hash_create` puts into its `hash_type`. -/
def nsHash : HashFns In6Addr where
  compare := nsHashCompare
  hash := nsHashHash
  size := 256
  compare_iff := nsHashCompare_iff
  hash_lt := fun key => Nat.lt_trans (Nat.mod_lt _ (show 0 < 0xFF by decide)) (by decide)

/-! ## Addresses -/

/-- The arguments `af` and `addr` of `resolve`. -/
inductive Address where
  | inet (addr : UInt32)
  | inet6 (addr : In6Addr)
  deriving DecidableEq, Repr

/-- The storage that `resolve` fills in for an address. -/
def Address.storage : Address → AddrStorage
  | inet addr => ⟨2, 4, ⟨addr, 0, 0, 0⟩⟩
  | inet6 addr => ⟨10, 16, addr⟩

/-- The key of an address. -/
abbrev Address.key (a : Address) : In6Addr := a.storage.in6

/-- **The keys tell all addresses apart** but IPv6 ones with the same first half. -/
theorem key_eq_iff (a b : Address) : a.key = b.key ↔
    a = b ∨ ∃ x y, a = .inet6 x ∧ b = .inet6 y ∧ x.s0 = y.s0 ∧ x.s1 = y.s1 := by
  cases a <;> cases b <;> simp [Address.key, Address.storage, AddrStorage.in6]
  · rintro rfl
    exact ⟨rfl, rfl⟩

/-- `IN6_IS_ADDR_LINKLOCAL`: fe80::/10. -/
def isLinkLocal (a : In6Addr) : Bool := a.s0 &&& 0x0000c0ff == 0x000080fe

/-- `IN6_IS_ADDR_SITELOCAL`: fec0::/10. -/
def isSiteLocal (a : In6Addr) : Bool := a.s0 &&& 0x0000c0ff == 0x0000c0fe

end Dotqoo.Resolver
