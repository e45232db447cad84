import Dotqoo.Table.Memory

/-!
# Walking a table that is being pruned

`hash_next_item` keeps no position: it takes a node and finds the one behind it,
in its chain or in the first bucket after it that is not empty. `history_rotate`
fetches the successor of a node before it deletes the node, and goes on from
there. `Stands` says where such a walk is: at a pointer, with some nodes still to
come. One call of `hash_next_item` moves it on by one node (`Stands.next`), and
it stays right when the node just left is unlinked, since that changes the chain
in front of the pointer only (`Stands.next_delete`).

The walk as a whole is `walk`, with any set of nodes to delete on the way.
-/

namespace Dotqoo.Table

open Dotqoo.Lib

variable {K R : Type}

namespace HashMem

/-- The `k`-th pointer that `hash_next_item` yields, from `NULL` on. -/
def nthItem (F : HashCalls K) (m : HashMem K R) : Nat → Option (Option Nat)
  | 0 => some none
  | k + 1 => do
    let p ← m.nthItem F k
    m.hashNextItem F p

/-- `hash_delete` with the key of the node `n`. -/
def deleteNode (F : HashCalls K) (m : HashMem K R) (n : Nat) : Option (HashMem K R) := do
  let c ← m.node n
  let r ← m.hashDelete F c.value.key
  some r.2

/-- The loop `while (n != NULL)` of `history_rotate`, as far as the table goes:
the successor is fetched, then the node is deleted if `del` says so. The nodes
visited and the memory at the end; out of fuel is `none`. -/
def walkFrom (F : HashCalls K) (del : Nat → Bool) :
    Nat → Option Nat → HashMem K R → Option (List Nat × HashMem K R)
  | _, none, m => some ([], m)
  | 0, some _, _ => none
  | fuel + 1, some n, m => do
    let next ← m.hashNextItem F (some n)
    let m ← if del n then m.deleteNode F n else some m
    let (visited, m) ← walkFrom F del fuel next m
    some (n :: visited, m)

/-- The walk, from the first call of `hash_next_item` on. -/
def walk (F : HashCalls K) (del : Nat → Bool) (fuel : Nat) (m : HashMem K R) :
    Option (List Nat × HashMem K R) := do
  let n ← m.hashNextItem F none
  walkFrom F del fuel n m

end HashMem

/-- The nodes of the chains, bucket by bucket and each from its head. -/
def nodesOf (F : HashCalls K) (chains : Nat → List (Nat × HashNode K R)) :
    List (Nat × HashNode K R) := gather F.size chains

/-- A walk stands at the pointer `p` and has the nodes `rem` still to visit. -/
def Stands (F : HashCalls K) (m : HashMem K R) (chains : Nat → List (Nat × HashNode K R))
    (p : Option Nat) (rem : List (Nat × HashNode K R)) : Prop :=
  (p = none ∧ rem = []) ∨
  ∃ i pre suf, i < F.size ∧ chains i = pre ++ suf ∧ suf ≠ [] ∧ Links m.node p suf none
    ∧ rem = suf ++ gatherFrom (i + 1) F.size chains

section Stands

variable {F : HashCalls K} {m m' : HashMem K R} {chains chains' : Nat → List (Nat × HashNode K R)}
  {p : Option Nat} {a i : Nat} {n : HashNode K R} {x : Nat × HashNode K R}
  {rem pre pre' rest : List (Nat × HashNode K R)}

/-- The walk is over exactly when the pointer is `NULL`. -/
theorem Stands.of_nil (h : Stands F m chains p []) : p = none := by
  rcases h with ⟨hp, -⟩ | ⟨i, pre, suf, -, -, hne, -, hrem⟩
  · exact hp
  · exact absurd (List.append_eq_nil_iff.mp hrem.symm).1 hne

/-- The pointer is that of the first node still to visit. -/
theorem Stands.pointer (h : Stands F m chains p rem) : p = rem.head?.map Prod.fst := by
  cases rem with
  | nil => exact h.of_nil
  | cons x rem =>
    rcases h with ⟨-, hrem⟩ | ⟨i, pre, suf, -, -, hne, hlinks, hrem⟩
    · cases hrem
    · obtain ⟨y, suf, rfl⟩ := List.exists_cons_of_ne_nil hne
      rw [hlinks.pointer, hrem]
      rfl

/-- Otherwise it stands at the first node still to visit, inside that node's chain. -/
theorem Stands.of_cons (h : Stands F m chains p ((a, n) :: rem)) :
    ∃ i pre rest, i < F.size ∧ chains i = pre ++ (a, n) :: rest ∧ p = some a
      ∧ rem = rest ++ gatherFrom (i + 1) F.size chains := by
  rcases h with ⟨-, hrem⟩ | ⟨i, pre, suf, hi, hch, hne, hlinks, hrem⟩
  · cases hrem
  · cases suf with
    | nil => exact absurd rfl hne
    | cons x rest =>
      rw [List.cons_append, List.cons.injEq] at hrem
      obtain ⟨rfl, hrem⟩ := hrem
      exact ⟨i, pre, rest, hi, hch, (Links.of_cons hlinks).1, hrem⟩

/-- The bucket scan stops at the first node from bucket `i` on. -/
theorem scan_stands (h : Chained F m chains) (fuel i : Nat) (hi : i + fuel = F.size) :
    Stands F m chains (m.scan fuel i) (gatherFrom i F.size chains) := by
  induction fuel generalizing i with
  | zero => exact Or.inl ⟨rfl, gatherFrom_end _ (by omega)⟩
  | succ fuel ih =>
    have hlt : i < F.size := by omega
    have hlinks := h.links i hlt
    rw [gatherFrom_step chains hlt, HashMem.scan]
    cases hc : chains i with
    | nil =>
      rw [hc] at hlinks
      rw [hlinks.of_nil, List.nil_append]
      exact ih (i + 1) (by omega)
    | cons x l =>
      rw [hc] at hlinks
      obtain ⟨htable, -⟩ := Links.of_cons (a := x.1) (v := x.2) hlinks
      rw [htable] at hlinks ⊢
      exact Or.inr ⟨i, [], x :: l, hlt, hc, by simp, hlinks, rfl⟩

/-- The scan reads the buckets it has left, nothing else. -/
theorem scan_congr (fuel i : Nat) (h : ∀ j, i ≤ j → j < i + fuel → m.table j = m'.table j) :
    m.scan fuel i = m'.scan fuel i := by
  induction fuel generalizing i with
  | zero => rfl
  | succ fuel ih =>
    rw [HashMem.scan, HashMem.scan, h i (Nat.le_refl i) (by omega),
      ih (i + 1) fun j hj hlt => h j (by omega) (by omega)]

theorem Stands.first (h : Chained F m chains) :
    ∃ p, m.hashNextItem F none = some p ∧ Stands F m chains p (nodesOf F chains) :=
  ⟨_, rfl, scan_stands h F.size 0 (by omega)⟩

/-- Inside a chain `hash_next_item` follows the link. -/
theorem hashNextItem_link {q : Nat} (hcell : m.node a = some ⟨n, some q⟩) :
    m.hashNextItem F (some a) = some (some q) := by
  rw [HashMem.hashNextItem, hcell]
  rfl

/-- At its end it looks for the next bucket that is not empty. -/
theorem hashNextItem_last (hcell : m.node a = some ⟨n, none⟩) : m.hashNextItem F (some a) =
    some (m.scan (F.size - (F.hash n.key + 1)) (F.hash n.key + 1)) := by
  rw [HashMem.hashNextItem, hcell]
  rfl

/-- The successor of a node, fetched in `m`, is right in `m'` if there the rest of
the node's chain and the buckets behind it are the same. -/
theorem stands_successor (h : Chained F m chains) (h' : Chained F m' chains') (hi : i < F.size)
    (hch : chains i = pre ++ (a, n) :: rest) (hch' : chains' i = pre' ++ rest)
    (hlater : ∀ j, i < j → chains' j = chains j) :
    ∃ p, m.hashNextItem F (some a) = some p
      ∧ Stands F m' chains' p (rest ++ gatherFrom (i + 1) F.size chains') := by
  have hplaced : F.hash n.key = i := h.placed i hi (a, n) (by rw [hch]; simp)
  have hlinks := h.links i hi
  have hlinks' := h'.links i hi
  rw [hch] at hlinks
  rw [hch'] at hlinks'
  obtain ⟨q, -, hq⟩ := hlinks.split
  obtain ⟨-, next, hcell, hrest⟩ := Links.of_cons hq
  obtain ⟨next', -, hrest'⟩ := hlinks'.split
  -- a pointer is fixed by the list behind it, so both memories link to the same node
  have hsame : next' = next := by rw [hrest'.pointer, hrest.pointer]
  subst hsame
  cases rest with
  | nil =>
    -- the end of the chain: the scan starts behind the bucket
    rw [hrest.of_nil] at hcell
    refine ⟨_, hashNextItem_last hcell, ?_⟩
    have hscan : m.scan (F.size - (i + 1)) (i + 1) = m'.scan (F.size - (i + 1)) (i + 1) := by
      refine scan_congr _ _ fun j hj hlt => ?_
      rw [(h.links j (by omega)).pointer, (h'.links j (by omega)).pointer, hlater j hj]
    rw [hplaced, hscan]
    exact scan_stands h' (F.size - (i + 1)) (i + 1) (by omega)
  | cons x rest =>
    obtain ⟨rfl, -⟩ := Links.of_cons (a := x.1) (v := x.2) hrest
    exact ⟨some x.1, hashNextItem_link hcell,
      Or.inr ⟨i, pre', x :: rest, hi, hch', by simp, hrest', rfl⟩⟩

/-- One call of `hash_next_item` moves the walk on by one node. -/
theorem Stands.next (h : Chained F m chains) (hs : Stands F m chains p ((a, n) :: rem)) :
    p = some a ∧ ∃ p', m.hashNextItem F (some a) = some p' ∧ Stands F m chains p' rem := by
  obtain ⟨i, pre, rest, hi, hch, rfl, rfl⟩ := hs.of_cons
  have hch' : chains i = (pre ++ [(a, n)]) ++ rest := by rw [hch]; simp
  exact ⟨rfl, stands_successor h h hi hch hch' fun _ _ => rfl⟩

/-- The chains without the node at `a`. -/
theorem Chained.filter_ne (h : Chained F m chains) (hi : i < F.size)
    (hch : chains i = pre ++ (a, n) :: rest) {j : Nat} (hj : j < F.size) :
    Function.update chains i (pre ++ rest) j = (chains j).filter (fun x => x.1 ≠ a) := by
  by_cases hji : j = i
  · subst hji
    have hnodup := (h.links j hj).nodup
    rw [hch] at hnodup
    have hkey : ∀ x : Nat × HashNode K R, decide (x.1 = a) = true ↔ x.1 = a :=
      fun x => decide_eq_true_iff
    rw [Function.update_self, hch, ← filter_not_middle hkey hnodup rfl]
    simp
  · rw [Function.update_of_ne hji]
    refine (List.filter_eq_self.mpr fun x hx => ?_).symm
    have hne := h.disjoint hi hj (Ne.symm hji) (x := (a, n)) (by rw [hch]; simp) hx
    simpa using Ne.symm hne

/-- It does so too when the node just left is deleted: the key finds the node
itself, and the chain closes in front of the walk. -/
theorem Stands.next_delete (h : Chained F m chains) (hs : Stands F m chains p ((a, n) :: rem))
    (hunique : ∀ x ∈ nodesOf F chains, F.compare x.2.key n.key = true ↔ x = (a, n)) :
    p = some a ∧ ∃ p' m' chains', m.hashNextItem F (some a) = some p'
      ∧ m.deleteNode F a = some m' ∧ Chained F m' chains' ∧ Stands F m' chains' p' rem
      ∧ ∀ i < F.size, chains' i = (chains i).filter (fun x => x.1 ≠ a) := by
  obtain ⟨i, pre, rest, hi, hch, rfl, rfl⟩ := hs.of_cons
  have hmem : (a, n) ∈ chains i := by rw [hch]; simp
  have hnodes : ∀ x ∈ chains i, x ∈ nodesOf F chains := fun x hx => mem_gather.mpr ⟨i, hi, hx⟩
  have hplaced : F.hash n.key = i := h.placed i hi _ hmem
  obtain ⟨next, hcell⟩ := (h.links i hi).cell_of_mem hmem
  have hnodup := (h.links i hi).nodup
  rw [hch] at hnodup
  -- no node before it has the key
  have hmiss : ∀ x ∈ pre, F.compare x.2.key n.key = false := by
    intro x hx
    rw [Bool.eq_false_iff]
    intro hc
    have hxa := (hunique x (hnodes x (by rw [hch]; exact List.mem_append_left _ hx))).mp hc
    rw [List.map_append, List.nodup_append] at hnodup
    exact hnodup.2.2 a (List.mem_map.mpr ⟨x, hx, by rw [hxa]⟩) a (by simp) rfl
  have hhit : F.compare n.key n.key = true := (hunique _ (hnodes _ hmem)).mpr rfl
  obtain ⟨m', hdel, h'⟩ := h.hashDelete_hit (by rw [hplaced]; exact hi)
    (by rw [hplaced]; exact hch) hmiss hhit
  rw [hplaced] at h'
  obtain ⟨p', hnext, hstands⟩ := stands_successor h h' hi hch (Function.update_self _ _ _)
    fun j hj => Function.update_of_ne (Nat.ne_of_gt hj) _ _
  refine ⟨rfl, p', m', _, hnext, ?_, h', ?_, fun j hj => h.filter_ne hi hch hj⟩
  · rw [HashMem.deleteNode, hcell, Option.bind_eq_bind, Option.bind_some, hdel]
    rfl
  · have hlater : gatherFrom (i + 1) F.size (Function.update chains i (pre ++ rest))
        = gatherFrom (i + 1) F.size chains :=
      gatherFrom_congr fun j hj _ => Function.update_of_ne (by omega) _ _
    rw [← hlater]
    exact hstands

end Stands

/-! ## The walk as a whole -/

section Walk

variable {F : HashCalls K}

/-- The pruning walk from a pointer that has the nodes `rem` still to visit. -/
theorem walkFrom_spec (del : Nat → Bool) : ∀ (rem : List (Nat × HashNode K R)) (fuel : Nat)
    (p : Option Nat) (m : HashMem K R) (chains : Nat → List (Nat × HashNode K R)),
    Chained F m chains → Stands F m chains p rem → rem.length ≤ fuel →
    (∀ x ∈ nodesOf F chains, ∀ y ∈ rem, del y.1 = true →
      (F.compare x.2.key y.2.key = true ↔ x = y)) →
    ∃ m' chains', HashMem.walkFrom F del fuel p m = some (rem.map Prod.fst, m')
      ∧ Chained F m' chains' ∧ ∀ i < F.size, chains' i
        = (chains i).filter (fun x => ¬ (del x.1 = true ∧ x.1 ∈ rem.map Prod.fst)) := by
  intro rem
  induction rem with
  | nil =>
    intro fuel p m chains h hs _ _
    rw [hs.of_nil]
    exact ⟨m, chains, by rw [HashMem.walkFrom]; rfl, h, fun i _ => by simp⟩
  | cons x rem ih =>
    intro fuel p m chains h hs hf hunique
    obtain ⟨a, n⟩ := x
    obtain ⟨fuel, rfl⟩ := Nat.exists_eq_succ_of_ne_zero (Nat.ne_zero_of_lt hf)
    have hlen : rem.length ≤ fuel := by simpa using hf
    by_cases hdel : del a = true
    · obtain ⟨rfl, p', m₁, chains₁, hnext, hm₁, h₁, hs₁, hch₁⟩ := hs.next_delete h
        fun x hx => hunique x hx (a, n) List.mem_cons_self hdel
      have hsub : ∀ x ∈ nodesOf F chains₁, x ∈ nodesOf F chains := by
        intro x hx
        obtain ⟨i, hi, hx⟩ := mem_gather.mp hx
        rw [hch₁ i hi] at hx
        exact mem_gather.mpr ⟨i, hi, List.mem_of_mem_filter hx⟩
      obtain ⟨m', chains', hwalk, h', hch'⟩ := ih fuel p' m₁ chains₁ h₁ hs₁ hlen
        fun x hx y hy => hunique x (hsub x hx) y (List.mem_cons_of_mem _ hy)
      refine ⟨m', chains', ?_, h', fun i hi => ?_⟩
      · simp [HashMem.walkFrom, hnext, hdel, hm₁, hwalk]
      · rw [hch' i hi, hch₁ i hi, List.filter_filter]
        refine List.filter_congr fun x _ => Bool.eq_iff_iff.mpr ?_
        simp only [Bool.and_eq_true, decide_eq_true_eq, List.map_cons, List.mem_cons]
        by_cases hxa : x.1 = a <;> simp [hxa, hdel]
    · obtain ⟨rfl, p', hnext, hs₁⟩ := hs.next h
      obtain ⟨m', chains', hwalk, h', hch'⟩ := ih fuel p' m chains h hs₁ hlen
        fun x hx y hy => hunique x hx y (List.mem_cons_of_mem _ hy)
      refine ⟨m', chains', ?_, h', fun i hi => ?_⟩
      · simp [HashMem.walkFrom, hnext, hdel, hwalk]
      · rw [hch' i hi]
        refine List.filter_congr fun x _ => Bool.eq_iff_iff.mpr ?_
        simp only [decide_eq_true_eq, List.map_cons, List.mem_cons]
        by_cases hxa : x.1 = a <;> simp [hxa, hdel]

/-- The `k`-th call reaches the `k`-th node, and the call behind the last one
yields `NULL`. -/
theorem nthItem_spec {m : HashMem K R} {chains : Nat → List (Nat × HashNode K R)}
    (h : Chained F m chains) : ∀ k, k ≤ (nodesOf F chains).length →
      ∃ p, m.nthItem F (k + 1) = some p ∧ Stands F m chains p ((nodesOf F chains).drop k) := by
  intro k
  induction k with
  | zero => exact fun _ => Stands.first h
  | succ k ih =>
    intro hk
    obtain ⟨p, hp, hs⟩ := ih (by omega)
    rw [List.drop_eq_getElem_cons (by omega : k < (nodesOf F chains).length)] at hs
    obtain ⟨rfl, p', hnext, hs'⟩ := hs.next h
    refine ⟨p', ?_, hs'⟩
    rw [HashMem.nthItem, hp, Option.bind_eq_bind, Option.bind_some]
    exact hnext

/-- No two nodes have keys that compare equal, and each key compares equal to itself. -/
def KeysUnique (F : HashCalls K) (chains : Nat → List (Nat × HashNode K R)) : Prop :=
  ∀ x ∈ nodesOf F chains, ∀ y ∈ nodesOf F chains, F.compare x.2.key y.2.key = true ↔ x = y

/-- **The walk meets every node once, even while it prunes.** From `NULL` on, the
`k`-th call of `hash_next_item` yields the `k`-th node and the call after the
last one yields `NULL`; no node comes twice. A walk that deletes any of the nodes
it has left, by key, visits the same nodes if the keys are unique. -/
theorem walk_once (m : HashMem K R) (chains : Nat → List (Nat × HashNode K R))
    (h : Chained F m chains) :
    ((nodesOf F chains).map Prod.fst).Nodup
      ∧ (∀ k, k ≤ (nodesOf F chains).length →
          m.nthItem F (k + 1) = some ((nodesOf F chains).map Prod.fst)[k]?)
      ∧ (KeysUnique F chains → ∀ del : Nat → Bool, ∃ m' chains',
          m.walk F del (nodesOf F chains).length = some ((nodesOf F chains).map Prod.fst, m')
            ∧ Chained F m' chains'
            ∧ nodesOf F chains' = (nodesOf F chains).filter (fun x => !del x.1)) := by
  refine ⟨h.nodup, fun k hk => ?_, fun hunique del => ?_⟩
  · obtain ⟨p, hp, hs⟩ := nthItem_spec h k hk
    rw [hp, hs.pointer, List.head?_drop, List.getElem?_map]
  · obtain ⟨p, hfirst, hs⟩ := Stands.first h
    obtain ⟨m', chains', hwalk, h', hch'⟩ := walkFrom_spec del (nodesOf F chains) _ p m chains h hs
      (Nat.le_refl _) fun x hx y hy _ => hunique x hx y hy
    refine ⟨m', chains', ?_, h', ?_⟩
    · rw [HashMem.walk, hfirst, Option.bind_eq_bind, Option.bind_some, hwalk]
    · rw [nodesOf, nodesOf, ← gather_filter]
      refine gatherFrom_congr fun i _ hi => ?_
      rw [hch' i hi]
      refine List.filter_congr fun x hx => ?_
      have hmem : x.1 ∈ (nodesOf F chains).map Prod.fst :=
        List.mem_map_of_mem (mem_gather.mpr ⟨i, hi, hx⟩)
      cases hdel : del x.1 <;> simp [hmem]

end Walk

/-! ## A walk over three nodes -/

/-- Two buckets: even keys and odd keys. -/
def parityCalls : HashCalls Nat where
  compare := fun a b => a == b
  hash := fun k => k % 2
  size := 2

/-- The keys 4, 1 and 6, inserted in this order. -/
def parityMem : HashMem Nat Unit :=
  ((HashMem.initialise Nat Unit).hashInsert parityCalls 4 ()).hashInsert parityCalls 1 ()
    |>.hashInsert parityCalls 6 ()

/-- Its chains: 6 and 4 in one bucket, 1 in the other. -/
def parityChains : Nat → List (Nat × HashNode Nat Unit) := fun i =>
  if i = 0 then [(2, ⟨6, ()⟩), (0, ⟨4, ()⟩)] else if i = 1 then [(1, ⟨1, ()⟩)] else []

theorem chained_parity : Chained parityCalls parityMem parityChains where
  links := fun i hi =>
    match i, hi with
    | 0, _ => .cons rfl (.cons rfl (.nil none))
    | 1, _ => .cons rfl (.nil none)
  placed := fun i hi =>
    match i, hi with
    | 0, _ => by decide
    | 1, _ => by decide
  fresh := (((Chained.initialise parityCalls).hashInsert 4 ()).hashInsert 1 ()
    |>.hashInsert 6 ()).fresh

/-- The walk visits the nodes 2, 0 and 1, also while it deletes the first two. -/
theorem walk_once_parity :
    parityMem.nthItem parityCalls 3 = some (some 1)
      ∧ parityMem.nthItem parityCalls 4 = some none
      ∧ ∃ m' chains', parityMem.walk parityCalls (fun a => a ≠ 1) 3 = some ([2, 0, 1], m')
        ∧ Chained parityCalls m' chains'
        ∧ nodesOf parityCalls chains' = [(1, ⟨1, ()⟩)] := by
  have h := walk_once parityMem parityChains chained_parity
  refine ⟨h.2.1 2 (by decide), h.2.1 3 (by decide), ?_⟩
  have hunique : KeysUnique parityCalls parityChains := by
    intro x hx y hy
    have hnodes : nodesOf parityCalls parityChains
        = [(2, ⟨6, ()⟩), (0, ⟨4, ()⟩), (1, ⟨1, ()⟩)] := rfl
    rw [hnodes] at hx hy
    simp at hx hy
    rcases hx with rfl | rfl | rfl <;> rcases hy with rfl | rfl | rfl <;> simp [parityCalls]
  exact h.2.2 hunique fun a => a ≠ 1

end Dotqoo.Table
