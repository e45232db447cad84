import Dotqoo.Capture.Rotate
import Dotqoo.Lib.Bytes

/-!
# The record encoder of `construct_MQTT_msg`

The loop that copies every approved record into the message, field by field,
with `memcpy`. What it copies depends on the platform: `sizeof(long)` bytes
from the address of a four-byte `s_addr`, and `sizeof(time_t)` bytes of a time.
`Platform` holds those widths (and zlib's `deflate`, which is not part of the
repository, as a parameter).

Because `sizeof(long)` may be 8, the copy can run past the address into what
lies behind it in memory. So a key is encoded from its memory *image*: the
`addr_pair` laid out as protocol, src_port, src, dst_port, two bytes of
padding, dst, and behind it whatever the heap holds next to the key's block.
The padding and the neighbour are no values of the program; they are supplied
from outside (`Neighbours`).

The message buffer is a `Writer`: the `calloc`ed block, the write cursor, and a
flag that records a copy which did not fit into the block. The records copied
are kept beside the bytes (`slots`), for the statements only.
-/

namespace Dotqoo.Capture

open Dotqoo.Table Dotqoo.Lib

/-- The build and the library the box runs on. -/
structure Platform where
  sizeofLong : Nat
  sizeofTimeT : Nat
  deflate : List UInt8 → List UInt8

/-- `struct_size`, as `init_MQTT` computes it. -/
def Platform.structSize (pl : Platform) : Nat :=
  pl.sizeofLong * 2 + 2 * 3 + 8 * 2 + pl.sizeofTimeT * 2

/-- The bytes around a key that belong to no field of it. -/
structure Neighbours where
  padding : UInt16
  behind : UInt32
  deriving DecidableEq, Repr

/-- The memory from the start of a key's heap block on. -/
def keyImage (nb : Neighbours) (k : AddrPair) : List UInt8 :=
  leBytes 2 k.protocol.toNat ++ leBytes 2 k.srcPort.toNat ++ leBytes 4 k.src.toNat
    ++ leBytes 2 k.dstPort.toNat ++ leBytes 2 nb.padding.toNat ++ leBytes 4 k.dst.toNat
    ++ leBytes 4 nb.behind.toNat

/-- `memcpy` of `len` bytes from offset `off` of a key. -/
def keyBytes (nb : Neighbours) (k : AddrPair) (off len : Nat) : List UInt8 :=
  ((keyImage nb k).drop off).take len

/-- The message under construction: block, cursor, and the records copied. -/
structure Writer where
  block : List UInt8
  current : Nat
  overrun : Bool
  slots : List Node

/-- `memcpy(current, src, n); current += n`. A copy that does not fit into the
block is recorded and leaves the block alone: it damages other memory. -/
def Writer.memcpy (w : Writer) (src : List UInt8) : Writer :=
  if w.current + src.length ≤ w.block.length then
    { w with
      block := w.block.take w.current ++ src ++ w.block.drop (w.current + src.length)
      current := w.current + src.length }
  else { w with current := w.current + src.length, overrun := true }

/-- The sources of the nine copies for one approved record, in order. -/
def recordFields (pl : Platform) (nb : Neighbours) (n : Node) : List (List UInt8) :=
  [ keyBytes nb n.key 4 pl.sizeofLong,
    keyBytes nb n.key 2 2,
    keyBytes nb n.key 12 pl.sizeofLong,
    keyBytes nb n.key 8 2,
    keyBytes nb n.key 0 2,
    leBytes 8 n.record.totalSent.toNat,
    leBytes 8 n.record.totalRecv.toNat,
    leInt pl.sizeofTimeT n.record.createTime,
    leInt pl.sizeofTimeT n.record.lastUpdateTime ]

/-- The copies for one approved record. -/
def writeRecord (pl : Platform) (nb : Neighbours) (n : Node) (w : Writer) : Writer :=
  { (recordFields pl nb n).foldl Writer.memcpy w with slots := w.slots ++ [n] }

/-- The walk over the table that fills the message. -/
def encodeLoop (pl : Platform) (around : AddrPair → Neighbours) (h : History) :
    Nat → List Node → Writer → Writer
  | 0, _, w => w
  | _ + 1, [], w => w
  | fuel + 1, n :: rest, w =>
    encodeLoop pl around h fuel (hashNextItem h.toHashType (n :: rest))
      (if n.record.approval then writeRecord pl (around n.key) n w else w)

/-- The block of `struct_size * n` zero bytes, filled from the table. The
product is an `int` in C; the bound under which it is exact is C's business and
is named where it matters. -/
def encodeTable (pl : Platform) (around : AddrPair → Neighbours) (n : Nat) (h : History) :
    Writer :=
  encodeLoop pl around h h.nodes.length (hashNextItem h.toHashType [])
    { block := List.replicate (pl.structSize * n) 0, current := 0, overrun := false, slots := [] }

/-! ## One record on the wire -/

/-- The bytes of one record. -/
def recordBytes (pl : Platform) (nb : Neighbours) (n : Node) : List UInt8 :=
  (recordFields pl nb n).flatten

/-- The widths the development covers: `long` of 4 or 8 bytes. -/
def Platform.LongOk (pl : Platform) : Prop := pl.sizeofLong = 4 ∨ pl.sizeofLong = 8

@[simp] theorem length_keyImage (nb : Neighbours) (k : AddrPair) : (keyImage nb k).length = 20 := by
  simp [keyImage]

theorem length_keyBytes {nb : Neighbours} {k : AddrPair} {off len : Nat} (h : off + len ≤ 20) :
    (keyBytes nb k off len).length = len := by
  rw [keyBytes, List.length_take, List.length_drop, length_keyImage]
  omega

/-- Whatever the widths, a record takes `struct_size` bytes. -/
theorem length_recordBytes {pl : Platform} (hpl : pl.LongOk) (nb : Neighbours) (n : Node) :
    (recordBytes pl nb n).length = pl.structSize := by
  have hlong : pl.sizeofLong ≤ 8 := by
    rcases hpl with h | h <;> omega
  simp only [recordBytes, recordFields, List.flatten_cons, List.flatten_nil, List.length_append,
    List.length_nil, length_leBytes, length_leInt]
  rw [length_keyBytes (by omega), length_keyBytes (by omega), length_keyBytes (by omega),
    length_keyBytes (by omega), length_keyBytes (by omega), Platform.structSize]
  omega

/-! ## The cursor -/

/-- The writer has copied `out`, from the start of its block of `size` bytes,
and nothing past the end. -/
structure Filled (size : Nat) (w : Writer) (out : List UInt8) : Prop where
  block : ∃ rest, w.block = out ++ rest
  size : w.block.length = size
  current : w.current = out.length
  overrun : w.overrun = false

/-- A copy that fits appends to what is filled. -/
theorem Filled.memcpy {size : Nat} {w : Writer} {out src : List UInt8} (hw : Filled size w out)
    (hfit : out.length + src.length ≤ size) : Filled size (w.memcpy src) (out ++ src) := by
  obtain ⟨rest, hrest⟩ := hw.block
  have hfit' : out.length + src.length ≤ w.block.length := by rw [hw.size]; exact hfit
  have hlen : w.block.length = out.length + rest.length := by rw [hrest, List.length_append]
  rw [Writer.memcpy, hw.current, if_pos hfit']
  refine ⟨⟨w.block.drop (out.length + src.length), ?_⟩, ?_, ?_, hw.overrun⟩
  · rw [hrest, List.take_left']
    rfl
  · rw [← hw.size]
    simp only [List.length_append, List.length_take, List.length_drop]
    omega
  · simp

/-- A sequence of copies that fits. -/
theorem Filled.copies {size : Nat} : ∀ (fields : List (List UInt8)) {w : Writer}
    {out : List UInt8}, Filled size w out → out.length + fields.flatten.length ≤ size →
    Filled size (fields.foldl Writer.memcpy w) (out ++ fields.flatten)
  | [], w, out, hw, _ => by simpa using hw
  | src :: fields, w, out, hw, hfit => by
    rw [List.flatten_cons, List.length_append] at hfit
    have hfit' : out.length + src.length ≤ size := by omega
    have hnext := hw.memcpy hfit'
    have := Filled.copies fields hnext (by rw [List.length_append]; omega)
    rw [List.foldl_cons, List.flatten_cons, ← List.append_assoc]
    exact this

theorem Filled.writeRecord {size : Nat} {pl : Platform} (hpl : pl.LongOk) (nb : Neighbours)
    (n : Node) {w : Writer} {out : List UInt8} (hw : Filled size w out)
    (hfit : out.length + pl.structSize ≤ size) :
    Filled size (writeRecord pl nb n w) (out ++ recordBytes pl nb n) := by
  rw [← length_recordBytes hpl nb n] at hfit
  have hc := hw.copies (recordFields pl nb n) hfit
  exact ⟨hc.block, hc.size, hc.current, hc.overrun⟩

/-- The bytes of the approved records of a list of nodes. -/
def tableBytes (pl : Platform) (around : AddrPair → Neighbours) (ns : List Node) : List UInt8 :=
  (approvedOf ns).flatMap fun n => recordBytes pl (around n.key) n

theorem tableBytes_cons_skip {pl : Platform} {around : AddrPair → Neighbours} {n : Node}
    {ns : List Node} (h : n.record.approval = false) :
    tableBytes pl around (n :: ns) = tableBytes pl around ns := by
  simp [tableBytes, approvedOf, h]

theorem tableBytes_cons_take {pl : Platform} {around : AddrPair → Neighbours} {n : Node}
    {ns : List Node} (h : n.record.approval = true) :
    tableBytes pl around (n :: ns)
      = recordBytes pl (around n.key) n ++ tableBytes pl around ns := by
  simp [tableBytes, approvedOf, h]

theorem length_tableBytes {pl : Platform} (hpl : pl.LongOk) (around : AddrPair → Neighbours) :
    ∀ ns : List Node, (tableBytes pl around ns).length = pl.structSize * (approvedOf ns).length := by
  intro ns
  rw [tableBytes]
  induction approvedOf ns with
  | nil => simp
  | cons n ns ih =>
    rw [List.flatMap_cons, List.length_append, ih, length_recordBytes hpl, List.length_cons]
    ring

/-- The copies do not look at the records copied so far. -/
theorem slots_copies : ∀ (fields : List (List UInt8)) (w : Writer),
    (fields.foldl Writer.memcpy w).slots = w.slots
  | [], _ => rfl
  | src :: fields, w => by
    rw [List.foldl_cons, slots_copies fields]
    unfold Writer.memcpy
    split <;> rfl

/-- The cursor moves by the bytes copied, whether or not they fit. -/
theorem current_copies : ∀ (fields : List (List UInt8)) (w : Writer),
    (fields.foldl Writer.memcpy w).current = w.current + fields.flatten.length
  | [], _ => rfl
  | src :: fields, w => by
    have hone : (w.memcpy src).current = w.current + src.length := by
      unfold Writer.memcpy
      split <;> rfl
    rw [List.foldl_cons, current_copies fields, hone, List.flatten_cons, List.length_append]
    omega

/-- The walk copies the approved nodes left, in order, and moves the cursor by
their bytes. -/
theorem encodeLoop_spec {pl : Platform} {around : AddrPair → Neighbours} {h : History} :
    ∀ (fuel : Nat) (p rem : List Node) (w : Writer), At h.toHashType p rem → rem.length ≤ fuel →
      (encodeLoop pl around h fuel p w).slots = w.slots ++ approvedOf rem
        ∧ (encodeLoop pl around h fuel p w).current
            = w.current + (tableBytes pl around rem).length := by
  intro fuel
  induction fuel with
  | zero =>
    intro p rem w _ hf
    have hrem : rem = [] := List.length_eq_zero_iff.mp (by omega)
    subst hrem
    simp [encodeLoop, approvedOf, tableBytes]
  | succ fuel ih =>
    intro p rem w ha hf
    cases rem with
    | nil =>
      rw [ha.nil_iff.mpr rfl]
      simp [encodeLoop, approvedOf, tableBytes]
    | cons n rem =>
      -- the pointer stands on `n`, and moves on before anything is copied
      obtain ⟨rest, rfl⟩ := ha.head
      have hnext := ha.next
      rw [List.length_cons] at hf
      obtain ⟨h1, h2⟩ := ih _ rem
        (if n.record.approval then writeRecord pl (around n.key) n w else w) hnext (by omega)
      rw [encodeLoop, h1, h2]
      cases happ : n.record.approval with
      | false =>
        rw [tableBytes_cons_skip happ]
        simp [approvedOf, happ]
      | true =>
        have hcur : (writeRecord pl (around n.key) n w).current
            = w.current + (recordBytes pl (around n.key) n).length :=
          current_copies (recordFields pl (around n.key) n) w
        rw [tableBytes_cons_take happ, List.length_append, if_pos rfl, hcur]
        exact ⟨by simp [approvedOf, happ, writeRecord], by omega⟩

/-- As long as the approved nodes left fit, they are all copied into the block. -/
theorem encodeLoop_filled {size : Nat} {pl : Platform} (hpl : pl.LongOk)
    {around : AddrPair → Neighbours} {h : History} :
    ∀ (fuel : Nat) (p rem : List Node) (w : Writer) (out : List UInt8), At h.toHashType p rem →
      rem.length ≤ fuel → Filled size w out →
      out.length + (tableBytes pl around rem).length ≤ size →
      Filled size (encodeLoop pl around h fuel p w) (out ++ tableBytes pl around rem) := by
  intro fuel
  induction fuel with
  | zero =>
    intro p rem w out _ hf hw _
    have hrem : rem = [] := List.length_eq_zero_iff.mp (by omega)
    subst hrem
    simpa [encodeLoop, approvedOf, tableBytes] using hw
  | succ fuel ih =>
    intro p rem w out ha hf hw hfit
    cases rem with
    | nil =>
      rw [ha.nil_iff.mpr rfl]
      simpa [encodeLoop, approvedOf, tableBytes] using hw
    | cons n rem =>
      obtain ⟨rest, rfl⟩ := ha.head
      have hnext := ha.next
      rw [List.length_cons] at hf
      rw [encodeLoop]
      cases happ : n.record.approval with
      | false =>
        -- an unapproved node takes no room
        rw [tableBytes_cons_skip happ] at hfit ⊢
        exact ih _ rem w out hnext (by omega) hw hfit
      | true =>
        have hlen := length_recordBytes hpl (around n.key) n
        rw [tableBytes_cons_take happ, List.length_append, hlen] at hfit
        rw [tableBytes_cons_take happ, ← List.append_assoc]
        exact ih _ rem _ _ hnext (by omega) (hw.writeRecord hpl (around n.key) n (by omega))
          (by rw [List.length_append, hlen]; omega)

/-- Whatever the count passed in, the slots of a message are the approved nodes
of the table in walk order, and the cursor ends behind them. -/
theorem encodeTable_walk (pl : Platform) (around : AddrPair → Neighbours) (n : Nat) (h : History) :
    (encodeTable pl around n h).slots = approvedOf h.nodes
      ∧ (encodeTable pl around n h).current = (tableBytes pl around h.nodes).length := by
  obtain ⟨h1, h2⟩ := encodeLoop_spec h.nodes.length
    (hashNextItem h.toHashType []) h.nodes
    ⟨List.replicate (pl.structSize * n) 0, 0, false, []⟩ (hashNextItem_first h.toHashType)
    (Nat.le_refl _)
  unfold encodeTable
  rw [h1, h2, List.nil_append, Nat.zero_add]
  exact ⟨rfl, rfl⟩

/-- A count of at least the approved records leaves room for all of them, and
zero bytes behind them. -/
theorem encodeTable_filled {pl : Platform} (hpl : pl.LongOk) (around : AddrPair → Neighbours)
    {n : Nat} {h : History} (hn : (approvedOf h.nodes).length ≤ n) :
    Filled (pl.structSize * n) (encodeTable pl around n h) (tableBytes pl around h.nodes) := by
  have hstart : Filled (pl.structSize * n)
      ⟨List.replicate (pl.structSize * n) 0, 0, false, []⟩ [] :=
    ⟨⟨_, rfl⟩, by simp, rfl, rfl⟩
  have hfit : (tableBytes pl around h.nodes).length ≤ pl.structSize * n := by
    rw [length_tableBytes hpl]
    exact Nat.mul_le_mul_left _ hn
  have := encodeLoop_filled hpl h.nodes.length (hashNextItem h.toHashType []) h.nodes _ _
    (hashNextItem_first h.toHashType) (Nat.le_refl _) hstart (by simpa using hfit)
  exact this

/-- With the exact count, the block is the records and nothing else. -/
theorem encodeTable_exact {pl : Platform} (hpl : pl.LongOk) (around : AddrPair → Neighbours)
    (h : History) :
    (encodeTable pl around (approvedOf h.nodes).length h).block
      = tableBytes pl around h.nodes := by
  have hw := encodeTable_filled hpl around (Nat.le_refl (approvedOf h.nodes).length)
  obtain ⟨rest, hrest⟩ := hw.block
  have hsize := hw.size
  rw [hrest, List.length_append, length_tableBytes hpl] at hsize
  have hnil : rest = [] := List.length_eq_zero_iff.mp (by omega)
  rw [hrest, hnil, List.append_nil]

end Dotqoo.Capture
