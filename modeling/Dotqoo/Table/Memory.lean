import Dotqoo.Table.Hash
import Dotqoo.Lib.Links

/-!
# `hash.c`, pointer by pointer

`Dotqoo.Table.Hash` models a chain as the list of its nodes. Here the nodes lie
in memory and are linked by `next`: `hash_delete` searches with two pointers,
redirects `p0->next` or the head of the chain, and releases the node;
`hash_next_item` goes on from the `next` of the node it is given; and
`hash_delete_all` releases node after node. Reading a node that is not allocated
is an error (`none`), so a result is also the statement that no released node was
looked at.

`Chained` ties a memory to the chains it holds, and every operation has one lemma
that says what it does to them. `Represents` leads on to the tables of
`Dotqoo.Table.Hash`: whatever is proved there holds of the memory.

Representation notes:
- An address is a number, and `xmalloc` hands out one that was never used: in
  memory it may be one that was released, which no code here could tell.
- The loops over a chain are recursive in a fuel argument, which starts at `brk`:
  no chain can be longer than the addresses handed out.
- `copy_key` and `delete_key` are left out: a node holds its key by value.
-/

namespace Dotqoo.Table

open Dotqoo.Lib

variable {K R : Type}

/-- The function pointers of a `hash_type` and its size, with nothing known
about them. -/
structure HashCalls (K : Type) where
  compare : K → K → Bool
  hash : K → Nat
  size : Nat

/-- The memory of one `hash_type`: its bucket array, the nodes, and the first
address that `xmalloc` has not handed out. -/
structure HashMem (K R : Type) where
  table : Nat → Option Nat
  node : Nat → Option (Cell Nat (HashNode K R))
  brk : Nat

namespace HashMem

/-- `hash_initialise`. -/
def initialise (K R : Type) : HashMem K R where
  table := fun _ => none
  node := fun _ => none
  brk := 0

/-- `free(p)`. -/
def free (m : HashMem K R) (p : Nat) : HashMem K R :=
  { m with node := Function.update m.node p none }

/-- `p->next = next`, of an allocated node. -/
def setNext (m : HashMem K R) (p : Nat) (c : Cell Nat (HashNode K R)) (next : Option Nat) :
    HashMem K R :=
  { m with node := Function.update m.node p (some { c with next }) }

/-- `table[bucket] = p`. -/
def setHead (m : HashMem K R) (bucket : Nat) (p : Option Nat) : HashMem K R :=
  { m with table := Function.update m.table bucket p }

variable (F : HashCalls K)

/-- `hash_insert`. -/
def hashInsert (m : HashMem K R) (key : K) (record : R) : HashMem K R :=
  let bucket := F.hash key
  { table := Function.update m.table bucket (some m.brk)
    node := Function.update m.node m.brk (some ⟨⟨key, record⟩, m.table bucket⟩)
    brk := m.brk + 1 }

/-- The loop `while (p && !compare(p->key, key)) { p0 = p; p = p->next; }`, and
`p0` and `p` at its end. -/
def seek (m : HashMem K R) (key : K) :
    Nat → Option Nat → Option Nat → Option (Option Nat × Option Nat)
  | _, p0, none => some (p0, none)
  | 0, _, some _ => none
  | fuel + 1, p0, some p => do
    let c ← m.node p
    if F.compare c.value.key key then some (p0, some p)
    else m.seek key fuel (some p) c.next

/-- `hash_delete`. -/
def hashDelete (m : HashMem K R) (key : K) : Option (HashStatus × HashMem K R) := do
  let bucket := F.hash key
  match ← m.seek F key m.brk none (m.table bucket) with
  | (_, none) => some (.keyNotFound, m)
  | (some p0, some p) => do
    -- not the first node, `p0` points to the one before
    let c ← m.node p
    let c0 ← m.node p0
    some (.ok, (m.setNext p0 c0 c.next).free p)
  | (none, some p) => do
    let c ← m.node p
    some (.ok, (m.setHead bucket c.next).free p)

/-- `hash_find`; `none` inside is `HASH_STATUS_KEY_NOT_FOUND`. -/
def hashFind (m : HashMem K R) (key : K) : Option (Option R) := do
  match ← m.seek F key m.brk none (m.table (F.hash key)) with
  | (_, none) => some none
  | (_, some p) => do
    let c ← m.node p
    some (some c.value.record)

/-- The loop `while (i < size && table[i] == NULL) i++`, and the pointer it ends
on. The fuel is `size - i`. -/
def scan (m : HashMem K R) : Nat → Nat → Option Nat
  | 0, _ => none
  | fuel + 1, i =>
    match m.table i with
    | none => m.scan fuel (i + 1)
    | some p => some p

/-- `hash_next_item`: `*ppnode` afterwards. -/
def hashNextItem (m : HashMem K R) : Option Nat → Option (Option Nat)
  | none => some (m.scan F.size 0)
  | some p => do
    let c ← m.node p
    match c.next with
    | some next => some (some next)
    | none =>
      let i := F.hash c.value.key + 1
      some (m.scan (F.size - i) i)

/-- The loop of `hash_delete_all` over one chain. -/
def freeChain : Nat → Option Nat → HashMem K R → Option (HashMem K R)
  | _, none, m => some m
  | 0, some _, _ => none
  | fuel + 1, some n, m => do
    let c ← m.node n
    freeChain fuel c.next (m.free n)

/-- Its loop over the buckets; the fuel is `size - i`. -/
def freeBuckets : Nat → Nat → HashMem K R → Option (HashMem K R)
  | 0, _, m => some m
  | fuel + 1, i, m => do
    let m ← freeChain m.brk (m.table i) m
    freeBuckets fuel (i + 1) (m.setHead i none)

/-- `hash_delete_all`. -/
def hashDeleteAll (m : HashMem K R) : Option (HashMem K R) := freeBuckets F.size 0 m

end HashMem

/-! ## The chains in memory -/

/-- The memory holds these chains, every node in the bucket of its key, and
nothing lies at the addresses still to be handed out. -/
structure Chained (F : HashCalls K) (m : HashMem K R)
    (chains : Nat → List (Nat × HashNode K R)) : Prop where
  links : ∀ i < F.size, Links m.node (m.table i) (chains i) none
  placed : ∀ i < F.size, ∀ x ∈ chains i, F.hash x.2.key = i
  fresh : ∀ a, m.brk ≤ a → m.node a = none

namespace Chained

variable {F : HashCalls K} {m m' : HashMem K R} {chains chains' : Nat → List (Nat × HashNode K R)}
  {i j : Nat} {x y : Nat × HashNode K R}

theorem initialise (F : HashCalls K) : Chained F (HashMem.initialise K R) fun _ => [] where
  links := fun _ _ => Links.nil none
  placed := fun _ _ _ hx => absurd hx (by simp)
  fresh := fun _ _ => rfl

theorem lt_brk (h : Chained F m chains) (hi : i < F.size) (hx : x ∈ chains i) : x.1 < m.brk := by
  by_contra hge
  obtain ⟨next, hcell⟩ := (h.links i hi).cell_of_mem hx
  rw [h.fresh x.1 (by omega)] at hcell
  cases hcell

theorem length_le (h : Chained F m chains) (hi : i < F.size) : (chains i).length ≤ m.brk :=
  (h.links i hi).length_le fun _ hx => h.lt_brk hi hx

/-- A node lies in one chain only: its key says in which. -/
theorem disjoint (h : Chained F m chains) (hi : i < F.size) (hj : j < F.size) (hij : i ≠ j)
    (hx : x ∈ chains i) (hy : y ∈ chains j) : x.1 ≠ y.1 := by
  intro heq
  obtain ⟨next, hcell⟩ := (h.links i hi).cell_of_mem hx
  obtain ⟨next', hcell'⟩ := (h.links j hj).cell_of_mem hy
  rw [heq, hcell'] at hcell
  have hkey : y.2 = x.2 := by
    injection hcell with hcell
    injection hcell
  rw [← h.placed i hi x hx, ← h.placed j hj y hy, hkey] at hij
  exact hij rfl

theorem not_mem_other (h : Chained F m chains) (hi : i < F.size) (hj : j < F.size) (hij : i ≠ j)
    (hx : x ∈ chains i) : x.1 ∉ (chains j).map Prod.fst := by
  intro hmem
  obtain ⟨y, hy, heq⟩ := List.mem_map.mp hmem
  exact h.disjoint hi hj hij hx hy heq.symm

/-- Bucket by bucket, no address twice. -/
theorem nodup (h : Chained F m chains) : ((gather F.size chains).map Prod.fst).Nodup := by
  rw [gather, gatherFrom, List.map_flatMap, List.nodup_flatMap]
  constructor
  · intro i hi
    rw [List.mem_range'_1] at hi
    exact (h.links i (by omega)).nodup
  · refine (List.nodup_range' ..).imp_of_mem fun {i j} hi hj hij => ?_
    rw [List.mem_range'_1] at hi hj
    intro a ha ha'
    obtain ⟨x, hx, rfl⟩ := List.mem_map.mp ha
    exact h.not_mem_other (by omega) (by omega) hij hx ha'

/-- Chains that a step does not touch stay where they are. -/
theorem keep (h : Chained F m chains) (hi : i < F.size) (htable : m'.table i = m.table i)
    (hnode : ∀ x ∈ chains i, m'.node x.1 = m.node x.1) :
    Links m'.node (m'.table i) (chains i) none := by
  rw [htable]
  exact (h.links i hi).congr hnode

end Chained

/-! ## The search of a chain -/

section Seek

variable {F : HashCalls K} {m : HashMem K R} {key : K} {p : Option Nat}

/-- No key of the chain compares equal: the loop runs to its end. -/
theorem seek_miss {l : List (Nat × HashNode K R)} (fuel : Nat) (p0 : Option Nat)
    (h : Links m.node p l none) (hmiss : ∀ x ∈ l, F.compare x.2.key key = false)
    (hf : l.length ≤ fuel) : ∃ p0', m.seek F key fuel p0 p = some (p0', none) := by
  induction l generalizing p fuel p0 with
  | nil =>
    rw [Links.of_nil h]
    exact ⟨p0, by rw [HashMem.seek]⟩
  | cons x l ih =>
    obtain ⟨rfl, next, hcell, hrest⟩ := Links.of_cons h
    cases fuel with
    | zero => exact absurd hf (by simp)
    | succ fuel =>
      obtain ⟨p0', hseek⟩ := ih fuel (some x.1) hrest
        (fun y hy => hmiss y (List.mem_cons_of_mem _ hy)) (by simpa using hf)
      refine ⟨p0', ?_⟩
      rw [HashMem.seek, hcell, Option.bind_eq_bind, Option.bind_some,
        if_neg (by rw [hmiss x List.mem_cons_self]; exact Bool.false_ne_true)]
      exact hseek

/-- The loop stops at the first key that compares equal, with `p0` one behind. -/
theorem seek_hit {pre post : List (Nat × HashNode K R)} {a : Nat} {n : HashNode K R} (fuel : Nat)
    (p0 : Option Nat) (h : Links m.node p (pre ++ (a, n) :: post) none)
    (hmiss : ∀ x ∈ pre, F.compare x.2.key key = false) (hhit : F.compare n.key key = true)
    (hf : pre.length < fuel) :
    m.seek F key fuel p0 p = some ((pre.map Prod.fst).getLast?.or p0, some a) := by
  induction pre generalizing p fuel p0 with
  | nil =>
    obtain ⟨rfl, next, hcell, -⟩ := Links.of_cons h
    obtain ⟨fuel, rfl⟩ := Nat.exists_eq_succ_of_ne_zero (Nat.ne_of_gt hf)
    rw [HashMem.seek, hcell, Option.bind_eq_bind, Option.bind_some, if_pos hhit]
    rfl
  | cons x pre ih =>
    obtain ⟨rfl, next, hcell, hrest⟩ := Links.of_cons h
    obtain ⟨fuel, rfl⟩ := Nat.exists_eq_succ_of_ne_zero (Nat.ne_zero_of_lt hf)
    have hseek := ih fuel (some x.1) hrest (fun y hy => hmiss y (List.mem_cons_of_mem _ hy))
      (by simpa using hf)
    rw [HashMem.seek, hcell, Option.bind_eq_bind, Option.bind_some,
      if_neg (by rw [hmiss x List.mem_cons_self]; exact Bool.false_ne_true)]
    rw [hseek, List.map_cons, List.getLast?_cons]
    cases (pre.map Prod.fst).getLast? <;> rfl

end Seek

/-! ## What the operations do to the chains -/

section Operations

variable {F : HashCalls K} {m : HashMem K R} {chains : Nat → List (Nat × HashNode K R)} {key : K}

/-- The first match of a chain, and what stands before it. -/
theorem find?_split {l : List (Nat × HashNode K R)} {a : Nat} {n : HashNode K R}
    (h : l.find? (fun x => F.compare x.2.key key) = some (a, n)) :
    ∃ pre post, l = pre ++ (a, n) :: post ∧ (∀ x ∈ pre, F.compare x.2.key key = false)
      ∧ F.compare n.key key = true := by
  obtain ⟨hhit, pre, post, hl, hmiss⟩ := List.find?_eq_some_iff_append.mp h
  exact ⟨pre, post, hl, fun x hx => by simpa using hmiss x hx, hhit⟩

/-- `hash_find` yields the record of the first match. -/
theorem Chained.hashFind (h : Chained F m chains) (hlt : F.hash key < F.size) :
    m.hashFind F key = some (((chains (F.hash key)).find?
      (fun x => F.compare x.2.key key)).map fun x => x.2.record) := by
  have hlinks := h.links _ hlt
  have hlen := h.length_le hlt
  rw [HashMem.hashFind]
  cases hfind : (chains (F.hash key)).find? (fun x => F.compare x.2.key key) with
  | none =>
    have hmiss : ∀ x ∈ chains (F.hash key), F.compare x.2.key key = false :=
      fun x hx => by simpa using List.find?_eq_none.mp hfind x hx
    obtain ⟨p0, hseek⟩ := seek_miss m.brk none hlinks hmiss hlen
    rw [hseek]
    rfl
  | some x =>
    obtain ⟨pre, post, hl, hmiss, hhit⟩ := find?_split hfind
    obtain ⟨next, hcell⟩ := hlinks.cell_of_mem (x := x) (by rw [hl]; simp)
    rw [hl] at hlinks hlen
    rw [List.length_append, List.length_cons] at hlen
    rw [seek_hit m.brk none hlinks hmiss hhit (by omega)]
    simp only [Option.bind_eq_bind, Option.bind_some, hcell, Option.map_some]

/-- `hash_insert` puts a new node at the beginning of the key's chain. -/
theorem Chained.hashInsert (h : Chained F m chains) (key : K) (record : R) :
    Chained F (m.hashInsert F key record) (Function.update chains (F.hash key)
      ((m.brk, ⟨key, record⟩) :: chains (F.hash key))) := by
  -- the new address is in no chain
  have hout : ∀ i, i < F.size → ∀ x ∈ chains i,
      (m.hashInsert F key record).node x.1 = m.node x.1 := fun i hi x hx =>
    Function.update_of_ne (Nat.ne_of_lt (h.lt_brk hi hx)) _ _
  refine ⟨fun i hi => ?_, fun i hi x hx => ?_, fun a ha => ?_⟩
  · by_cases hb : i = F.hash key
    · subst hb
      rw [Function.update_self]
      have hhead : (m.hashInsert F key record).table (F.hash key) = some m.brk :=
        Function.update_self _ _ _
      rw [hhead]
      exact Links.cons (Function.update_self _ _ _) ((h.links _ hi).congr (hout _ hi))
    · rw [Function.update_of_ne hb]
      exact h.keep hi (Function.update_of_ne hb _ _) (hout i hi)
  · by_cases hb : i = F.hash key
    · subst hb
      rw [Function.update_self] at hx
      rcases List.mem_cons.mp hx with rfl | hx
      · rfl
      · exact h.placed _ hi x hx
    · rw [Function.update_of_ne hb] at hx
      exact h.placed i hi x hx
  · have hlt : m.brk + 1 ≤ a := ha
    show Function.update m.node m.brk _ a = none
    rw [Function.update_of_ne (by omega)]
    exact h.fresh a (by omega)

/-- The chain of bucket `b` is cut down to some of its nodes, and the links of
the cut chain are in place: then the memory is in order again. -/
theorem Chained.cut (h : Chained F m chains) {m' : HashMem K R} {b : Nat}
    {l : List (Nat × HashNode K R)} (hb : b < F.size) (hl : Links m'.node (m'.table b) l none)
    (hsub : ∀ x ∈ l, x ∈ chains b) (htable : ∀ i, i ≠ b → m'.table i = m.table i)
    (hnode : ∀ a, m'.node a ≠ m.node a → a ∈ (chains b).map Prod.fst) (hbrk : m'.brk = m.brk) :
    Chained F m' (Function.update chains b l) := by
  refine ⟨fun i hi => ?_, fun i hi x hx => ?_, fun a ha => ?_⟩
  · by_cases hib : i = b
    · subst hib
      rw [Function.update_self]
      exact hl
    · rw [Function.update_of_ne hib]
      refine h.keep hi (htable i hib) fun x hx => ?_
      by_contra hne
      exact h.not_mem_other hi hb hib hx (hnode x.1 hne)
  · by_cases hib : i = b
    · subst hib
      rw [Function.update_self] at hx
      exact h.placed i hi x (hsub x hx)
    · rw [Function.update_of_ne hib] at hx
      exact h.placed i hi x hx
  · rw [hbrk] at ha
    by_contra hne
    have hmem : a ∈ (chains b).map Prod.fst := by
      refine hnode a fun heq => hne ?_
      rw [heq]
      exact h.fresh a ha
    obtain ⟨x, hx, rfl⟩ := List.mem_map.mp hmem
    exact absurd (h.lt_brk hb hx) (by omega)

/-- With no match `hash_delete` changes nothing. -/
theorem Chained.hashDelete_miss (h : Chained F m chains) (hlt : F.hash key < F.size)
    (hmiss : ∀ x ∈ chains (F.hash key), F.compare x.2.key key = false) :
    m.hashDelete F key = some (.keyNotFound, m) := by
  obtain ⟨p0, hseek⟩ := seek_miss m.brk none (h.links _ hlt) hmiss (h.length_le hlt)
  rw [HashMem.hashDelete, hseek]
  rfl

/-- `hash_delete` unlinks and releases the first match. -/
theorem Chained.hashDelete_hit (h : Chained F m chains) (hlt : F.hash key < F.size)
    {pre post : List (Nat × HashNode K R)} {a : Nat} {n : HashNode K R}
    (hl : chains (F.hash key) = pre ++ (a, n) :: post)
    (hmiss : ∀ x ∈ pre, F.compare x.2.key key = false) (hhit : F.compare n.key key = true) :
    ∃ m', m.hashDelete F key = some (.ok, m')
      ∧ Chained F m' (Function.update chains (F.hash key) (pre ++ post)) := by
  have hlinks := h.links _ hlt
  have hlen := h.length_le hlt
  have hnodup := hlinks.nodup
  rw [hl] at hlinks hlen hnodup
  rw [List.length_append, List.length_cons] at hlen
  have hseek := seek_hit m.brk none hlinks hmiss hhit (by omega)
  obtain ⟨q, hpre, hq⟩ := hlinks.split
  obtain ⟨rfl, next, hcell, hpost⟩ := Links.of_cons hq
  -- the node is met once, so it lies neither before nor behind itself
  rw [List.map_append, List.map_cons, List.nodup_append] at hnodup
  obtain ⟨hnodup₁, hnodup₂, hdisj⟩ := hnodup
  have hpost_a : a ∉ post.map Prod.fst := (List.nodup_cons.mp hnodup₂).1
  have hpre_a : a ∉ pre.map Prod.fst := fun hmem =>
    hdisj a hmem a List.mem_cons_self rfl
  have hsub : ∀ x ∈ pre ++ post, x ∈ chains (F.hash key) := by
    intro x hx
    rw [hl]
    rcases List.mem_append.mp hx with hx | hx
    · exact List.mem_append_left _ hx
    · exact List.mem_append_right _ (List.mem_cons_of_mem _ hx)
  rw [HashMem.hashDelete, hseek]
  rcases List.eq_nil_or_concat' pre with rfl | ⟨pre', ⟨a0, n0⟩, rfl⟩
  · -- the first node of the chain: the head is redirected
    refine ⟨(m.setHead (F.hash key) next).free a, by simp [hcell], h.cut hlt ?_ hsub ?_ ?_ rfl⟩
    · have hhead : ((m.setHead (F.hash key) next).free a).table (F.hash key) = next :=
        Function.update_self _ _ _
      rw [hhead]
      exact hpost.update hpost_a none
    · exact fun i hi => Function.update_of_ne hi _ _
    · intro x hx
      have hxa : x = a := by
        by_contra hne
        exact hx (Function.update_of_ne hne _ _)
      rw [hxa, hl]
      simp
  · -- a later one: the node before it is
    obtain ⟨c, hpre', hlast⟩ := hpre.split
    obtain ⟨rfl, next0, hcell0, -⟩ := Links.of_cons hlast
    have ha0_post : a0 ∉ post.map Prod.fst := fun hmem =>
      hdisj a0 (by simp) a0 (List.mem_cons_of_mem _ hmem) rfl
    have ha0_pre : a0 ∉ pre'.map Prod.fst := by
      rw [List.map_append, List.nodup_append] at hnodup₁
      exact fun hmem => hnodup₁.2.2 a0 hmem a0 (by simp) rfl
    refine ⟨(m.setNext a0 ⟨n0, next0⟩ next).free a, by simp [hcell, hcell0],
      h.cut hlt ?_ hsub ?_ ?_ rfl⟩
    · have hrelinked := ((hpre'.append hlast).relink ha0_pre next).update hpre_a none
      exact hrelinked.append ((hpost.update ha0_post _).update hpost_a none)
    · exact fun i _ => rfl
    · intro x hx
      have hxa : x = a ∨ x = a0 := by
        by_contra hne
        rw [not_or] at hne
        refine hx ?_
        show Function.update (Function.update m.node a0 _) a none x = _
        rw [Function.update_of_ne hne.1, Function.update_of_ne hne.2]
      rw [hl]
      rcases hxa with rfl | rfl <;> simp

/-- The loop over one chain releases its nodes and leaves the rest of the memory alone. -/
theorem freeChain_spec {l : List (Nat × HashNode K R)} {p : Option Nat} (fuel : Nat)
    (h : Links m.node p l none) (hf : l.length ≤ fuel) :
    ∃ m', HashMem.freeChain fuel p m = some m' ∧ m'.table = m.table ∧ m'.brk = m.brk
      ∧ ∀ a, a ∉ l.map Prod.fst → m'.node a = m.node a := by
  induction l generalizing m p fuel with
  | nil =>
    rw [Links.of_nil h]
    exact ⟨m, by rw [HashMem.freeChain], rfl, rfl, fun _ _ => rfl⟩
  | cons x l ih =>
    have hout := h.nodup
    obtain ⟨rfl, next, hcell, hrest⟩ := Links.of_cons h
    obtain ⟨fuel, rfl⟩ := Nat.exists_eq_succ_of_ne_zero (Nat.ne_zero_of_lt hf)
    rw [List.map_cons, List.nodup_cons] at hout
    have hrest' : Links (m.free x.1).node next l none := hrest.update hout.1 none
    obtain ⟨m', hm', htable, hbrk, hnode⟩ := ih fuel hrest' (by simpa using hf)
    refine ⟨m', ?_, htable, hbrk, fun a ha => ?_⟩
    · rw [HashMem.freeChain, hcell, Option.bind_eq_bind, Option.bind_some]
      exact hm'
    · rw [List.map_cons, List.mem_cons, not_or] at ha
      rw [hnode a ha.2]
      exact Function.update_of_ne ha.1 _ _

/-- The loop over the buckets, from bucket `i` on. -/
theorem freeBuckets_spec (fuel i : Nat) (hi : i + fuel = F.size) (h : Chained F m chains)
    (hdone : ∀ j < i, chains j = []) :
    ∃ m', HashMem.freeBuckets fuel i m = some m' ∧ Chained F m' fun _ => [] := by
  induction fuel generalizing i m chains with
  | zero =>
    refine ⟨m, by rw [HashMem.freeBuckets], fun j hj => ?_, fun _ _ _ hx => absurd hx (by simp),
      h.fresh⟩
    have hlinks := h.links j hj
    rw [hdone j (by omega)] at hlinks
    exact hlinks
  | succ fuel ih =>
    have hlt : i < F.size := by omega
    obtain ⟨m₁, hm₁, htable, hbrk, hnode⟩ :=
      freeChain_spec m.brk (h.links i hlt) (h.length_le hlt)
    -- the bucket is cut down to nothing
    have hcut : Chained F (m₁.setHead i none) (Function.update chains i []) := by
      refine h.cut hlt ?_ (fun x hx => absurd hx (by simp)) (fun j hj => ?_) (fun a ha => ?_) hbrk
      · have hhead : (m₁.setHead i none).table i = none := Function.update_self _ _ _
        rw [hhead]
        exact Links.nil none
      · show Function.update m₁.table i none j = _
        rw [Function.update_of_ne hj, htable]
      · by_contra hout
        exact ha (hnode a hout)
    obtain ⟨m', hm', hchained⟩ := ih (i + 1) (by omega) hcut fun j hj => by
      by_cases hji : j = i
      · rw [hji, Function.update_self]
      · rw [Function.update_of_ne hji]
        exact hdone j (by omega)
    refine ⟨m', ?_, hchained⟩
    rw [HashMem.freeBuckets, hm₁, Option.bind_eq_bind, Option.bind_some]
    exact hm'

/-- `hash_delete_all` leaves an empty table. -/
theorem Chained.hashDeleteAll (h : Chained F m chains) :
    ∃ m', m.hashDeleteAll F = some m' ∧ Chained F m' fun _ => [] :=
  freeBuckets_spec F.size 0 (by omega) h fun j hj => absurd hj (Nat.not_lt_zero j)

end Operations

end Dotqoo.Table
