import Dotqoo.Lib.Chains

/-!
# `hash.c`: the chained hash table

`hash.c` is generic: a `hash_type` carries its `compare` and `hash` functions
and its number of buckets, and stores `void*` keys and records. `HashFns` is
that parameter block, with the two facts hash.c relies on as fields (equal keys
are what `compare` says, and `hash` stays inside the table), and `HashType F R`
is the table proper. Its field `placed` is the bucket invariant: a node sits in
the chain its key hashes to. Every operation below re-establishes it, so a
misplaced node cannot be built.

Representation notes:
- `table[i]` is the chain of nodes of bucket `i`, newest first. The C type
  keeps a linked list; a node *pointer* is modelled by the chain from that node
  on (`NULL` is `[]`), which is what `p->next` walks.
- A record is stored by value. Writing through the `rec` pointer that
  `hash_find` returns is `hashStore`, which rewrites the first node of the key,
  the one `hash_find` found.
- Allocation failure exits the program (`xmalloc`), so it has no counterpart.

`KeyedTable` adds the second invariant, that no key occurs twice. hash.c does
not enforce it (`hash_insert` happily stores a key again), its only user does:
`handle_ip_packet` inserts after a failed `hash_find`.
-/

namespace Dotqoo.Table

open Dotqoo.Lib

variable {K R : Type}

/-- The function pointers and the size of a `hash_type`. -/
structure HashFns (K : Type) where
  compare : K → K → Bool
  hash : K → Nat
  size : Nat
  compare_iff : ∀ a b, compare a b = true ↔ a = b
  hash_lt : ∀ k, hash k < size

/-- `hash_node_type`, without the `next` pointer that the chain carries. -/
structure HashNode (K R : Type) where
  key : K
  record : R

/-- `hash_type`: the buckets, each node in the chain of its key. -/
structure HashType (F : HashFns K) (R : Type) where
  table : Nat → List (HashNode K R)
  placed : ∀ i, ∀ n ∈ table i, F.hash n.key = i

/-- `hash_status_enum`. -/
inductive HashStatus where
  | ok
  | memExhausted
  | keyNotFound
  deriving DecidableEq, Repr

variable {F : HashFns K}

/-- `hash_initialise`: all buckets empty. -/
def hashInitialise (F : HashFns K) (R : Type) : HashType F R where
  table := fun _ => []
  placed := fun _ _ hn => absurd hn (by simp)

/-- `hash_insert`: a new node at the beginning of its chain. -/
def hashInsert (h : HashType F R) (key : K) (record : R) : HashType F R where
  table := fun i => if i = F.hash key then ⟨key, record⟩ :: h.table i else h.table i
  placed := by
    intro i n hn
    split at hn
    next hi =>
      rcases List.mem_cons.mp hn with rfl | hn'
      · exact hi.symm
      · exact h.placed i n hn'
    next => exact h.placed i n hn

/-- `hash_delete`: unlink the first node of the chain whose key compares equal. -/
def hashDelete (h : HashType F R) (key : K) : HashStatus × HashType F R :=
  if (h.table (F.hash key)).any (fun p => F.compare p.key key) then
    (HashStatus.ok,
     { table := fun i =>
        if i = F.hash key then (h.table i).eraseP (fun p => F.compare p.key key) else h.table i
       placed := by
        intro i n hn
        split at hn
        next => exact h.placed i n (List.mem_of_mem_eraseP hn)
        next => exact h.placed i n hn })
  else (HashStatus.keyNotFound, h)

/-- `hash_find`: the record of the first node of the chain whose key compares
equal; `none` is `HASH_STATUS_KEY_NOT_FOUND`. -/
def hashFind (h : HashType F R) (key : K) : Option R :=
  ((h.table (F.hash key)).find? (fun p => F.compare p.key key)).map HashNode.record

/-- Write through the record pointer that `hash_find` returns for `key`. -/
def hashStore (h : HashType F R) (key : K) (f : R → R) : HashType F R where
  table := fun i =>
    if i = F.hash key then
      modifyFirst (fun p => F.compare p.key key) (fun p => { p with record := f p.record })
        (h.table i)
    else h.table i
  placed := by
    have hkeys : ∀ l : List (HashNode K R), ∀ n ∈ modifyFirst (fun p => F.compare p.key key)
        (fun p => { p with record := f p.record }) l, ∃ m ∈ l, m.key = n.key := by
      intro l
      induction l with
      | nil => intro n hn; exact absurd hn (by simp [modifyFirst])
      | cons m l ih =>
        intro n hn
        rw [modifyFirst] at hn
        split at hn
        next =>
          rcases List.mem_cons.mp hn with rfl | hn'
          · exact ⟨m, List.mem_cons_self .., rfl⟩
          · exact ⟨n, List.mem_cons_of_mem _ hn', rfl⟩
        next =>
          rcases List.mem_cons.mp hn with rfl | hn'
          · exact ⟨n, List.mem_cons_self .., rfl⟩
          · obtain ⟨m', hm', hk⟩ := ih n hn'
            exact ⟨m', List.mem_cons_of_mem _ hm', hk⟩
    intro i n hn
    split at hn
    next =>
      obtain ⟨m, hm, hk⟩ := hkeys _ n hn
      rw [← hk]
      exact h.placed i m hm
    next => exact h.placed i n hn

/-- The loop `while (i < size && table[i] == NULL) i++` of `hash_next_item`,
and the pointer it ends on. The fuel is `size - i`, the buckets left. -/
def scanBuckets (h : HashType F R) : Nat → Nat → List (HashNode K R)
  | 0, _ => []
  | fuel + 1, i =>
    match h.table i with
    | [] => scanBuckets h fuel (i + 1)
    | n :: rest => n :: rest

/-- `hash_next_item`: the node behind `*ppnode` in its chain, else the first
node of the next non-empty bucket; from `NULL`, the first node of the table. -/
def hashNextItem (h : HashType F R) : List (HashNode K R) → List (HashNode K R)
  | [] => scanBuckets h F.size 0
  | [n] => scanBuckets h (F.size - (F.hash n.key + 1)) (F.hash n.key + 1)
  | _ :: next :: rest => next :: rest

/-! ## The nodes of a table -/

/-- All nodes, bucket by bucket and each chain from its head: the order in
which `hash_next_item` is meant to visit them. -/
def HashType.nodes (h : HashType F R) : List (HashNode K R) := gather F.size h.table

theorem HashType.mem_nodes {h : HashType F R} {n : HashNode K R} :
    n ∈ h.nodes ↔ n ∈ h.table (F.hash n.key) := by
  rw [HashType.nodes, mem_gather]
  refine ⟨fun hn => ?_, fun hn => ⟨F.hash n.key, F.hash_lt n.key, hn⟩⟩
  obtain ⟨i, -, hn⟩ := hn
  rw [h.placed i n hn]
  exact hn

@[simp] theorem nodes_hashInitialise : (hashInitialise F R).nodes = [] := by
  simp [HashType.nodes, hashInitialise, gather, gatherFrom]

/-- No bucket other than its own holds a node that compares equal to `k`. -/
theorem HashType.compare_false (h : HashType F R) {i : Nat} {k : K} (hi : i ≠ F.hash k) :
    ∀ n ∈ h.table i, F.compare n.key k = false := by
  intro n hn
  rw [Bool.eq_false_iff]
  intro hc
  exact hi (((F.compare_iff _ _).mp hc) ▸ (h.placed i n hn).symm)

theorem compare_key_iff (k : K) (n : HashNode K R) : F.compare n.key k = true ↔ n.key = k :=
  F.compare_iff n.key k

/-- `hash_insert` adds one node, somewhere in the order. -/
theorem nodes_hashInsert_perm (h : HashType F R) (k : K) (r : R) :
    (hashInsert h k r).nodes.Perm (⟨k, r⟩ :: h.nodes) := by
  have hlt := F.hash_lt k
  have hlow : gatherFrom 0 (F.hash k) (hashInsert h k r).table
      = gatherFrom 0 (F.hash k) h.table :=
    gatherFrom_congr fun j _ hj => if_neg (Nat.ne_of_lt hj)
  have hhigh : gatherFrom (F.hash k + 1) F.size (hashInsert h k r).table
      = gatherFrom (F.hash k + 1) F.size h.table :=
    gatherFrom_congr fun j hj _ => if_neg (by omega)
  have hmid : (hashInsert h k r).table (F.hash k) = ⟨k, r⟩ :: h.table (F.hash k) := if_pos rfl
  rw [HashType.nodes, HashType.nodes, gather, gather,
    gatherFrom_split _ (Nat.zero_le _) (Nat.le_of_lt hlt), gatherFrom_step _ hlt,
    gatherFrom_split h.table (Nat.zero_le _) (Nat.le_of_lt hlt), gatherFrom_step h.table hlt,
    hlow, hhigh, hmid, List.cons_append]
  exact List.perm_middle

/-! ## The walk -/

/-- `p` is the pointer at which a walk that has still to visit `rem` stands. -/
def At (h : HashType F R) (p rem : List (HashNode K R)) : Prop :=
  (p = [] ∧ rem = []) ∨
  ∃ i pre, i < F.size ∧ h.table i = pre ++ p ∧ p ≠ [] ∧
    rem = p ++ gatherFrom (i + 1) F.size h.table

/-- A pointer is `NULL` exactly when nothing is left to visit. -/
theorem At.nil_iff {h : HashType F R} {p rem : List (HashNode K R)} (ha : At h p rem) :
    p = [] ↔ rem = [] := by
  rcases ha with ⟨hp, hr⟩ | ⟨i, pre, -, -, hp, hr⟩
  · simp [hp, hr]
  · refine ⟨fun he => absurd he hp, fun he => ?_⟩
    rw [he] at hr
    exact (List.append_eq_nil_iff.mp hr.symm).1

theorem At.head {h : HashType F R} {p rem : List (HashNode K R)} {n : HashNode K R}
    (ha : At h p (n :: rem)) : ∃ rest, p = n :: rest := by
  rcases ha with ⟨-, hr⟩ | ⟨i, pre, -, -, hp, hr⟩
  · exact absurd hr (by simp)
  · cases p with
    | nil => exact absurd rfl hp
    | cons m rest =>
      rw [List.cons_append, List.cons.injEq] at hr
      exact ⟨rest, by rw [hr.1]⟩

/-- The bucket scan stops at the first node from bucket `i` on. -/
theorem scanBuckets_at (h : HashType F R) : ∀ (fuel i : Nat), i + fuel = F.size →
    At h (scanBuckets h fuel i) (gatherFrom i F.size h.table) := by
  intro fuel
  induction fuel with
  | zero =>
    intro i hi
    exact Or.inl ⟨rfl, gatherFrom_end _ (by omega)⟩
  | succ fuel ih =>
    intro i hi
    rw [gatherFrom_step h.table (by omega : i < F.size), scanBuckets]
    cases hc : h.table i with
    | nil => simpa using ih (i + 1) (by omega)
    | cons n rest => exact Or.inr ⟨i, [], by omega, by simp [hc], by simp, rfl⟩

theorem hashNextItem_first (h : HashType F R) : At h (hashNextItem h []) h.nodes :=
  scanBuckets_at h F.size 0 (by omega)

/-- The scan reads the buckets from `i` on, nothing else. -/
theorem scanBuckets_congr {h h' : HashType F R} : ∀ (fuel i : Nat),
    (∀ j, i ≤ j → h'.table j = h.table j) → scanBuckets h' fuel i = scanBuckets h fuel i := by
  intro fuel
  induction fuel with
  | zero => intro i _; rfl
  | succ fuel ih =>
    intro i hj
    rw [scanBuckets, scanBuckets, hj i (Nat.le_refl i), ih (i + 1) fun j hj' => hj j (by omega)]

/-- The prefetched successor stays right while the visited node is rewritten or
unlinked: `h'` differs from `h` only in front of the rest of the chain. This is
why fetching `next` before the loop body is enough. -/
theorem hashNextItem_at {h h' : HashType F R} {i : Nat} {n : HashNode K R}
    {pre pre' rest : List (HashNode K R)} (hi : i < F.size)
    (hh : h.table i = pre ++ n :: rest) (hh' : h'.table i = pre' ++ rest)
    (hlater : ∀ j, i < j → h'.table j = h.table j) :
    At h' (hashNextItem h (n :: rest)) (rest ++ gatherFrom (i + 1) F.size h.table) := by
  have hafter : gatherFrom (i + 1) F.size h'.table = gatherFrom (i + 1) F.size h.table :=
    gatherFrom_congr fun j hj _ => hlater j hj
  have hkey : F.hash n.key = i := h.placed i n (by rw [hh]; simp)
  rw [← hafter]
  cases rest with
  | nil =>
    -- the end of the chain: the scan starts behind the bucket, where nothing changed
    rw [hashNextItem, hkey, ← scanBuckets_congr _ _ fun j hj => hlater j hj]
    exact scanBuckets_at h' (F.size - (i + 1)) (i + 1) (by omega)
  | cons m rest => exact Or.inr ⟨i, pre', hi, hh', by simp [hashNextItem], rfl⟩

/-- One call moves a walk on by one node. -/
theorem At.next {h : HashType F R} {n : HashNode K R} {rest rem : List (HashNode K R)}
    (ha : At h (n :: rest) (n :: rem)) : At h (hashNextItem h (n :: rest)) rem := by
  rcases ha with ⟨hp, -⟩ | ⟨i, pre, hi, htab, -, hrem⟩
  · exact absurd hp (by simp)
  · rw [List.cons_append, List.cons.injEq] at hrem
    rw [hrem.2]
    have htab' : h.table i = (pre ++ [n]) ++ rest := by rw [htab]; simp
    exact hashNextItem_at hi htab htab' fun _ _ => rfl

/-- The nodes that the loop `while (n != NULL) hash_next_item(h, &n)` meets. -/
def walkFrom (h : HashType F R) : Nat → List (HashNode K R) → List (HashNode K R)
  | 0, _ => []
  | _ + 1, [] => []
  | fuel + 1, n :: rest => n :: walkFrom h fuel (hashNextItem h (n :: rest))

/-- The walk over the whole table, from `NULL` to `NULL`. -/
def hashWalk (h : HashType F R) : List (HashNode K R) :=
  walkFrom h h.nodes.length (hashNextItem h [])

theorem walkFrom_at {h : HashType F R} : ∀ (fuel : Nat) (p rem : List (HashNode K R)),
    At h p rem → rem.length ≤ fuel → walkFrom h fuel p = rem := by
  intro fuel
  induction fuel with
  | zero =>
    intro p rem _ hf
    exact (List.length_eq_zero_iff.mp (by omega)).symm
  | succ fuel ih =>
    intro p rem ha hf
    cases rem with
    | nil =>
      rw [ha.nil_iff.mpr rfl]
      rfl
    | cons n rem =>
      obtain ⟨rest, rfl⟩ := ha.head
      rw [List.length_cons] at hf
      rw [walkFrom, ih _ rem ha.next (by omega)]

/-- The walk meets every node once, in the order of the buckets. -/
theorem hashWalk_eq (h : HashType F R) : hashWalk h = h.nodes :=
  walkFrom_at h.nodes.length _ h.nodes (hashNextItem_first h) (Nat.le_refl _)

/-! ## Tables without duplicate keys -/

/-- A table that stores every key at most once. -/
structure KeyedTable (F : HashFns K) (R : Type) extends HashType F R where
  unique : (toHashType.nodes.map HashNode.key).Nodup

/-- The empty table. -/
def KeyedTable.empty (F : HashFns K) (R : Type) : KeyedTable F R where
  toHashType := hashInitialise F R
  unique := by rw [nodes_hashInitialise]; exact List.nodup_nil

/-- A chain is what of the walk belongs to its bucket. -/
theorem HashType.table_eq_filter (h : HashType F R) (i : Nat) :
    h.table i = h.nodes.filter (fun n => F.hash n.key = i) := by
  have hchain : ∀ j, (h.table j).filter (fun n => F.hash n.key = i)
      = if j = i then h.table i else [] := by
    intro j
    split
    next hji =>
      subst hji
      exact List.filter_eq_self.mpr fun n hn => decide_eq_true (h.placed j n hn)
    next hji =>
      refine List.filter_eq_nil_iff.mpr fun n hn => ?_
      simpa [h.placed j n hn] using hji
  rw [HashType.nodes, ← gather_filter, gather, gatherFrom]
  simp only [hchain]
  by_cases hi : i < F.size
  · rw [← gatherFrom, gatherFrom_split _ (Nat.zero_le i) (Nat.le_of_lt hi), gatherFrom_step _ hi,
      gatherFrom_empty fun j _ hj => if_neg (Nat.ne_of_lt hj),
      gatherFrom_empty fun j hj _ => if_neg (by omega), if_pos rfl]
    simp
  · rw [← gatherFrom, gatherFrom_empty fun j _ hj => if_neg (by omega)]
    refine List.eq_nil_iff_forall_not_mem.mpr fun n hn => ?_
    have := F.hash_lt n.key
    rw [h.placed i n hn] at this
    exact hi this

/-- The walk says all about a table. -/
theorem KeyedTable.eq_of_nodes {h h' : KeyedTable F R} (hn : h.nodes = h'.nodes) : h = h' := by
  have htable : h.table = h'.table := by
    funext i
    rw [h.table_eq_filter, h'.table_eq_filter, hn]
  obtain ⟨⟨t, _⟩, _⟩ := h
  obtain ⟨⟨t', _⟩, _⟩ := h'
  cases htable
  rfl

variable (h : KeyedTable F R)

theorem KeyedTable.unique_chain (i : Nat) : ((h.table i).map HashNode.key).Nodup := by
  by_cases hi : i < F.size
  · exact List.Nodup.sublist ((sublist_gather h.table hi).map _) h.unique
  · have hnil : h.table i = [] := by
      apply List.eq_nil_iff_forall_not_mem.mpr
      intro n hn
      have := F.hash_lt n.key
      rw [h.placed i n hn] at this
      exact hi this
    rw [hnil]
    exact List.nodup_nil

/-- `hash_find` reads the one node of the key. -/
theorem KeyedTable.hashFind_eq_some_iff {k : K} {r : R} :
    hashFind h.toHashType k = some r ↔ ⟨k, r⟩ ∈ h.nodes := by
  rw [HashType.mem_nodes, hashFind, Option.map_eq_some_iff]
  have hiff := find?_eq_some_iff_mem (compare_key_iff (F := F) k) (h.unique_chain (F.hash k))
  refine ⟨fun hsome => ?_, fun hmem => ⟨⟨k, r⟩, (hiff _).mpr ⟨hmem, rfl⟩, rfl⟩⟩
  obtain ⟨⟨k', r'⟩, hfind, hr⟩ := hsome
  obtain ⟨hmem, hk⟩ := (hiff _).mp hfind
  rw [show k' = k from hk, show r' = r from hr] at hmem
  exact hmem

theorem KeyedTable.hashFind_eq_none_iff {k : K} :
    hashFind h.toHashType k = none ↔ ∀ n ∈ h.nodes, n.key ≠ k := by
  constructor
  · intro hnone n hn hk
    subst hk
    rw [(h.hashFind_eq_some_iff).mpr hn] at hnone
    exact absurd hnone (by simp)
  · intro hall
    cases hfind : hashFind h.toHashType k with
    | none => rfl
    | some r => exact absurd rfl (hall _ ((h.hashFind_eq_some_iff).mp hfind))

/-- Two nodes with one key are one node. -/
theorem KeyedTable.eq_of_key {n m : HashNode K R} (hn : n ∈ h.nodes) (hm : m ∈ h.nodes)
    (hk : n.key = m.key) : n = m :=
  List.inj_on_of_nodup_map h.unique hn hm hk

/-- `hash_delete` takes out the node of the key, and nothing else. -/
theorem table_hashDelete (k : K) (i : Nat) :
    (hashDelete h.toHashType k).2.table i
      = (h.table i).filter (fun n => !F.compare n.key k) := by
  have herase := eraseP_eq_filter (compare_key_iff (F := F) k) (h.unique_chain i)
  by_cases hany : (h.table (F.hash k)).any (fun p => F.compare p.key k) = true
  · rw [hashDelete, if_pos hany]
    by_cases hi : i = F.hash k
    · simp only [if_pos hi, herase]
    · simp only [if_neg hi]
      exact (filter_of_not_match (h.compare_false hi)).symm
  · rw [hashDelete, if_neg hany]
    refine (filter_of_not_match fun n hn => ?_).symm
    by_cases hi : i = F.hash k
    · -- no node of the chain compares equal, so there is nothing to delete
      rw [hi] at hn
      have := fun hc => hany (List.any_eq_true.mpr ⟨n, hn, hc⟩)
      simpa using this
    · exact h.compare_false hi n hn

theorem nodes_hashDelete (k : K) :
    (hashDelete h.toHashType k).2.nodes
      = h.nodes.filter (fun n => !F.compare n.key k) := by
  rw [HashType.nodes, HashType.nodes, ← gather_filter]
  congr 1
  funext i
  exact table_hashDelete h k i

/-- Writing through the record pointer changes the record of the key's node. -/
theorem table_hashStore (k : K) (f : R → R) (i : Nat) :
    (hashStore h.toHashType k f).table i = (h.table i).map
      (fun n => if F.compare n.key k then { n with record := f n.record } else n) := by
  show (if i = F.hash k then _ else _) = _
  by_cases hi : i = F.hash k
  · rw [if_pos hi]
    exact modifyFirst_eq_map (compare_key_iff k) (h.unique_chain i)
  · rw [if_neg hi]
    exact (map_of_not_match (h.compare_false hi)).symm

theorem nodes_hashStore (k : K) (f : R → R) :
    (hashStore h.toHashType k f).nodes = h.nodes.map
      (fun n => if F.compare n.key k then { n with record := f n.record } else n) := by
  rw [HashType.nodes, HashType.nodes, ← gather_map]
  congr 1
  funext i
  exact table_hashStore h k f i

/-- `hash_insert` of a key that `hash_find` did not find. -/
def KeyedTable.insert (k : K) (r : R) (hk : hashFind h.toHashType k = none) :
    KeyedTable F R where
  toHashType := hashInsert h.toHashType k r
  unique := by
    have hperm := (nodes_hashInsert_perm h.toHashType k r).map HashNode.key
    rw [hperm.nodup_iff, List.map_cons, List.nodup_cons]
    refine ⟨fun hmem => ?_, h.unique⟩
    obtain ⟨n, hn, hkey⟩ := List.mem_map.mp hmem
    exact (h.hashFind_eq_none_iff).mp hk n hn hkey

/-- `hash_delete` on a table without duplicate keys. -/
def KeyedTable.delete (k : K) : KeyedTable F R where
  toHashType := (hashDelete h.toHashType k).2
  unique := by
    rw [nodes_hashDelete]
    exact h.unique.sublist (List.filter_sublist.map _)

/-- A write through a record pointer, on a table without duplicate keys. -/
def KeyedTable.store (k : K) (f : R → R) : KeyedTable F R where
  toHashType := hashStore h.toHashType k f
  unique := by
    rw [nodes_hashStore, List.map_map]
    have hkeys : (HashNode.key ∘ fun n : HashNode K R =>
        if F.compare n.key k then { n with record := f n.record } else n) = HashNode.key := by
      funext n
      show (if F.compare n.key k then _ else _ : HashNode K R).key = n.key
      split <;> rfl
    rw [hkeys]
    exact h.unique

/-- Deleting a node of the walk closes the gap it leaves. -/
theorem KeyedTable.nodes_delete_of_split {l₁ l₂ : List (HashNode K R)} {n : HashNode K R}
    (hs : h.nodes = l₁ ++ n :: l₂) : (h.delete n.key).nodes = l₁ ++ l₂ := by
  show (hashDelete h.toHashType n.key).2.nodes = _
  have hu := h.unique
  rw [hs] at hu
  rw [nodes_hashDelete, hs, filter_not_middle (compare_key_iff n.key) hu rfl]

/-- Writing the record of a node of the walk leaves every other node alone. -/
theorem KeyedTable.nodes_store_of_split {l₁ l₂ : List (HashNode K R)} {n : HashNode K R}
    {f : R → R} (hs : h.nodes = l₁ ++ n :: l₂) :
    (h.store n.key f).nodes = l₁ ++ ⟨n.key, f n.record⟩ :: l₂ := by
  show (hashStore h.toHashType n.key f).nodes = _
  have hu := h.unique
  rw [hs] at hu
  rw [nodes_hashStore, hs]
  exact map_middle (compare_key_iff n.key) hu rfl

/-- After the visited node is deleted or rewritten, the prefetched pointer
stands before what was left to visit. -/
theorem KeyedTable.delete_at {i : Nat} {n : HashNode K R} {pre rest : List (HashNode K R)}
    (hi : i < F.size) (hh : h.table i = pre ++ n :: rest) :
    At (h.delete n.key).toHashType (hashNextItem h.toHashType (n :: rest))
      (rest ++ gatherFrom (i + 1) F.size h.table) := by
  have hkey : F.hash n.key = i := h.placed i n (by rw [hh]; simp)
  have hu := h.unique_chain i
  rw [hh] at hu
  have hhere : (h.delete n.key).table i = pre ++ rest := by
    show (hashDelete h.toHashType n.key).2.table i = _
    rw [table_hashDelete, hh, filter_not_middle (compare_key_iff n.key) hu rfl]
  refine hashNextItem_at hi hh hhere fun j hj => ?_
  show (hashDelete h.toHashType n.key).2.table j = _
  rw [table_hashDelete]
  exact filter_of_not_match (h.compare_false (show j ≠ F.hash n.key by omega))

theorem KeyedTable.store_at {i : Nat} {n : HashNode K R} {pre rest : List (HashNode K R)}
    {f : R → R} (hi : i < F.size) (hh : h.table i = pre ++ n :: rest) :
    At (h.store n.key f).toHashType (hashNextItem h.toHashType (n :: rest))
      (rest ++ gatherFrom (i + 1) F.size h.table) := by
  have hkey : F.hash n.key = i := h.placed i n (by rw [hh]; simp)
  have hu := h.unique_chain i
  rw [hh] at hu
  have hhere : (h.store n.key f).table i = (pre ++ [⟨n.key, f n.record⟩]) ++ rest := by
    show (hashStore h.toHashType n.key f).table i = _
    rw [table_hashStore, hh, List.append_assoc]
    exact map_middle (compare_key_iff n.key) hu rfl
  refine hashNextItem_at hi hh hhere fun j hj => ?_
  show (if j = F.hash n.key then _ else _) = _
  rw [if_neg (by omega)]

/-- Visiting a node without touching the table. -/
theorem KeyedTable.stay_at {i : Nat} {n : HashNode K R} {pre rest : List (HashNode K R)}
    (hi : i < F.size) (hh : h.table i = pre ++ n :: rest) :
    At h.toHashType (hashNextItem h.toHashType (n :: rest))
      (rest ++ gatherFrom (i + 1) F.size h.table) :=
  have hh' : h.table i = (pre ++ [n]) ++ rest := by rw [hh]; simp
  hashNextItem_at hi hh hh' fun _ _ => rfl

/-- The table with other records under the same keys. -/
def KeyedTable.mapRecords {R' : Type} (f : R → R') : KeyedTable F R' where
  table := fun i => (h.table i).map fun n => ⟨n.key, f n.record⟩
  placed := by
    intro i n hn
    obtain ⟨m, hm, rfl⟩ := List.mem_map.mp hn
    exact h.placed i m hm
  unique := by
    show ((gather F.size fun i => (h.table i).map fun n : HashNode K R =>
      (⟨n.key, f n.record⟩ : HashNode K R')).map HashNode.key).Nodup
    rw [gather_map, List.map_map]
    exact h.unique

theorem KeyedTable.nodes_mapRecords {R' : Type} (f : R → R') :
    (h.mapRecords f).nodes = h.nodes.map fun n => ⟨n.key, f n.record⟩ :=
  gather_map F.size h.table fun n : HashNode K R => (⟨n.key, f n.record⟩ : HashNode K R')

/-- A node of the table after an insert. -/
theorem KeyedTable.mem_insert {k : K} {r : R} (hk : hashFind h.toHashType k = none)
    {n : HashNode K R} : n ∈ (h.insert k r hk).nodes ↔ n = ⟨k, r⟩ ∨ n ∈ h.nodes := by
  show n ∈ (hashInsert h.toHashType k r).nodes ↔ _
  rw [(nodes_hashInsert_perm h.toHashType k r).mem_iff, List.mem_cons]

/-- A node of the table after a write: the key's node rewritten, or another one. -/
theorem KeyedTable.mem_store {k : K} {f : R → R} {n : HashNode K R} :
    n ∈ (h.store k f).nodes ↔
      (n ∈ h.nodes ∧ n.key ≠ k) ∨ ∃ r, ⟨k, r⟩ ∈ h.nodes ∧ n = ⟨k, f r⟩ := by
  show n ∈ (hashStore h.toHashType k f).nodes ↔ _
  rw [nodes_hashStore, List.mem_map]
  constructor
  · intro hn
    obtain ⟨m, hm, rfl⟩ := hn
    by_cases hk : m.key = k
    · rw [if_pos ((compare_key_iff k m).mpr hk)]
      subst hk
      exact Or.inr ⟨m.record, hm, rfl⟩
    · rw [if_neg fun hc => hk ((compare_key_iff k m).mp hc)]
      exact Or.inl ⟨hm, hk⟩
  · intro hn
    rcases hn with ⟨hm, hk⟩ | ⟨r, hm, rfl⟩
    · exact ⟨n, hm, if_neg fun hc => hk ((compare_key_iff k n).mp hc)⟩
    · exact ⟨⟨k, r⟩, hm, if_pos ((compare_key_iff (F := F) k ⟨k, r⟩).mpr rfl)⟩

end Dotqoo.Table
