import Mathlib.Data.List.Perm.Subperm
import Dotqoo.Config.MapCells

/-!
# A string map keeps the first item of a key

What `stringmap.c` promises of a map from `stringmap_new` on, whatever is inserted,
looked up and replaced: its cells are a search tree in the order of `strcmp`, and
it answers like a partial function that an insertion extends and never changes
(`mapSpec`). Only `config_set_string` stores over an item, through the node that
`stringmap_find` returns.
-/

namespace Dotqoo.Config

open Dotqoo.Lib

variable {ν : Type}

namespace MapMem

/-- The cells from the root on: a root without a key is the empty map. -/
def Rooted (m : MapMem ν) (S : Nat) : SearchTree CString Nat → Prop
  | .leaf => ∃ d, m.node S = some ⟨none, d, none, none⟩
  | .node l key a g => m.Holds (some S) (.node l key a g)

/-- The map at `S` has these cells, each once, and in order. -/
structure Represents (m : MapMem ν) (S : Nat) (t : SearchTree CString Nat) : Prop where
  rooted : m.Rooted S t
  nodup : (cells t).Nodup
  lt : ∀ a ∈ cells t, a < m.brk
  root_lt : S < m.brk
  ordered : t.Ordered strcmp

/-- The node of a key and its item, or NULL. -/
def found (m : MapMem ν) (S : Nat) (k : CString) : Option (Option (Nat × ν)) := do
  match ← m.stringmapFind S k with
  | some p => do
    let c ← m.node p
    some (some (p, c.d))
  | none => some none

variable {m m' : MapMem ν} {S : Nat} {t : SearchTree CString Nat}

theorem Holds.rooted (h : m.Holds (some S) t) : m.Rooted S t := by
  cases t with
  | leaf => cases h
  | node l key a g => exact h

theorem Represents.fuel (h : m.Represents S t) : t.toList.length ≤ m.brk := by
  have hsub : (cells t).Subperm (List.range m.brk) :=
    h.nodup.subperm fun a ha => List.mem_range.mpr (h.lt a ha)
  have hle := hsub.length_le
  rwa [cells, List.length_map, List.length_range] at hle

/-- **The keys ascend** when the tree is read from left to right. -/
theorem Represents.ascending (h : m.Represents S t) :
    t.toList.Pairwise fun e e' => strcmp e.1 e'.1 = .lt :=
  h.ordered.pairwise

/-- A cell that is found has the key. -/
theorem Represents.node_of_find (h : m.Represents S t) {k : CString} {a : Nat}
    (hfind : t.find strcmp k = some a) : ∃ c, m.node a = some c ∧ c.key = some k := by
  have hmem := SearchTree.mem_toList_of_find hfind
  cases t with
  | leaf => cases hmem
  | node l key b g => exact Holds.key_of_mem h.rooted hmem

theorem mem_cells_of_find {k : CString} {a : Nat}
    (hfind : t.find strcmp k = some a) : a ∈ cells t :=
  List.mem_map_of_mem (SearchTree.mem_toList_of_find hfind)

/-- **`stringmap_find`** finds what the tree finds. -/
theorem Represents.stringmapFind (h : m.Represents S t) (k : CString) :
    m.stringmapFind S k = some (t.find strcmp k) := by
  have hroot := h.rooted
  cases t with
  | leaf =>
    obtain ⟨d, hc⟩ := hroot
    simp [MapMem.stringmapFind, hc]
  | node l key a g =>
    have hwalk := Holds.findLoop hroot h.fuel k
    obtain ⟨hS, c, hc, hkey, -, -⟩ := hroot
    cases hS
    simp [MapMem.stringmapFind, hc, hkey, hwalk]

theorem Represents.found_eq (h : m.Represents S t) (k : CString) :
    m.found S k = some ((t.find strcmp k).bind fun a => (m.node a).map fun c => (a, c.d)) := by
  rw [found, h.stringmapFind, Option.bind_eq_bind, Option.bind_some]
  cases hfind : t.find strcmp k with
  | none => rfl
  | some a =>
    obtain ⟨c, hc, -⟩ := h.node_of_find hfind
    simp [hc]

section Writes

variable [Inhabited ν]

theorem represents_stringmapNew (m : MapMem ν) :
    (m.stringmapNew).1.Represents (m.stringmapNew).2 .leaf := by
  refine ⟨⟨default, ?_⟩, List.nodup_nil, fun a ha => by simp [cells, SearchTree.toList] at ha,
    Nat.lt_succ_self m.brk, trivial⟩
  simp [stringmapNew]

/-- **A key that is there** keeps its item. -/
theorem Represents.insert_found (h : m.Represents S t) {k : CString} {a : Nat}
    (hfind : t.find strcmp k = some a) (d : ν) : m.stringmapInsert S k d = some (m, some a) := by
  have hroot := h.rooted
  cases t with
  | leaf => cases hfind
  | node l key b g =>
    have hwalk := Holds.insertLoop_found hroot h.fuel hfind d
    obtain ⟨hS, c, hc, hkey, -, -⟩ := hroot
    cases hS
    simp [stringmapInsert, hc, hkey, hwalk]

/-- **A key that is not there** gets a node, at the root if the map was empty. -/
theorem Represents.insert_new (h : m.Represents S t) {k : CString}
    (hfind : t.find strcmp k = none) (d : ν) :
    ∃ m' a, m.stringmapInsert S k d = some (m', none) ∧ m'.Represents S (t.insert strcmp k a) ∧
      (∃ c, m'.node a = some c ∧ c.d = d) ∧
      ∀ q ∈ cells t, ∀ c, m.node q = some c → ∃ c', m'.node q = some c' ∧ c'.d = c.d := by
  have hroot := h.rooted
  cases t with
  | leaf =>
    obtain ⟨d₀, hc⟩ := hroot
    refine ⟨m.write S ⟨some k, d, none, none⟩, S, by simp [stringmapInsert, hc], ?_, ?_, ?_⟩
    · refine ⟨?_, by simp [SearchTree.insert, cells, SearchTree.toList], ?_, h.root_lt,
        h.ordered.insert k S⟩
      · exact ⟨rfl, ⟨some k, d, none, none⟩, by simp [write], rfl, rfl, rfl⟩
      · intro a ha
        have haS : a = S := by simpa [SearchTree.insert, cells, SearchTree.toList] using ha
        exact haS ▸ h.root_lt
    · exact ⟨⟨some k, d, none, none⟩, by simp [write], rfl⟩
    · intro q hq
      simp [cells, SearchTree.toList] at hq
  | node l key b g =>
    obtain ⟨m', hrun, hadded, hholds⟩ := Holds.insertLoop_new hroot h.fuel h.nodup h.lt hfind d
    have hperm : (cells ((SearchTree.node l key b g).insert strcmp k m.brk)).Perm
        (m.brk :: cells (.node l key b g)) := (SearchTree.toList_insert_perm m.brk hfind).map _
    refine ⟨m', m.brk, ?_, ⟨hholds.rooted, ?_, ?_, ?_, h.ordered.insert k m.brk⟩, ?_, ?_⟩
    · obtain ⟨hS, c, hc, hkey, -, -⟩ := hroot
      cases hS
      simp [stringmapInsert, hc, hkey, hrun]
    · exact hperm.nodup_iff.mpr
        (List.nodup_cons.mpr ⟨fun hmem => Nat.lt_irrefl _ (h.lt _ hmem), h.nodup⟩)
    · intro a ha
      rw [hadded.brk]
      rcases List.mem_cons.mp (hperm.subset ha) with rfl | ha
      · exact Nat.lt_succ_self _
      · exact Nat.lt_succ_of_lt (h.lt a ha)
    · rw [hadded.brk]
      exact Nat.lt_succ_of_lt h.root_lt
    · obtain ⟨c, hc, -, hd⟩ := hadded.new
      exact ⟨c, hc, hd⟩
    · intro q hq c hc
      obtain ⟨c', hc', -, hd⟩ := hadded.kept q (Nat.ne_of_lt (h.lt q hq)) c hc
      exact ⟨c', hc', hd⟩

omit [Inhabited ν] in
/-- **`S->d = d`** changes the item of one node. -/
theorem Represents.storeItem (h : m.Represents S t) {a : Nat} {c : MapCell ν}
    (hc : m.node a = some c) (d : ν) :
    ∃ m', m.storeItem a d = some m' ∧ m'.Represents S t ∧ m'.node a = some { c with d } ∧
      ∀ q ≠ a, m'.node q = m.node q := by
  have hnode : ∀ q, (m.write a { c with d }).node q =
      if q = a then some { c with d } else m.node q := fun q => by
    simp [write, Function.update_apply]
  have hshape : ∀ q c', m.node q = some c' → ∃ c'', (m.write a { c with d }).node q = some c'' ∧
      c''.key = c'.key ∧ c''.l = c'.l ∧ c''.g = c'.g := by
    intro q c' hc'
    by_cases hqa : q = a
    · subst hqa
      cases hc.symm.trans hc'
      exact ⟨{ c with d }, by rw [hnode, if_pos rfl], rfl, rfl, rfl⟩
    · exact ⟨c', by rw [hnode, if_neg hqa, hc'], rfl, rfl, rfl⟩
  refine ⟨m.write a { c with d }, by simp [MapMem.storeItem, hc],
    ⟨?_, h.nodup, h.lt, h.root_lt, h.ordered⟩, by rw [hnode, if_pos rfl],
    fun q hq => by rw [hnode, if_neg hq]⟩
  have hroot := h.rooted
  cases t with
  | leaf =>
    obtain ⟨d₀, hS⟩ := hroot
    obtain ⟨⟨key, d', l, g⟩, hc', hkey, hl, hg⟩ := hshape S _ hS
    cases hkey
    cases hl
    cases hg
    exact ⟨d', hc'⟩
  | node l key b g => exact Holds.congr hroot fun q _ => hshape q

/-! ## What is found -/

/-- After an insertion of a new key it is found, and all others as before. -/
theorem Represents.found_insert (h : m.Represents S t) {k : CString}
    (hfind : t.find strcmp k = none) (d : ν) :
    ∃ m' a, m.stringmapInsert S k d = some (m', none) ∧ m'.Represents S (t.insert strcmp k a) ∧
      m'.found S k = some (some (a, d)) ∧ ∀ k' ≠ k, m'.found S k' = m.found S k' := by
  obtain ⟨m', a, hrun, h', ⟨c, hc, hd⟩, hkept⟩ := h.insert_new hfind d
  refine ⟨m', a, hrun, h', ?_, fun k' hk' => ?_⟩
  · rw [h'.found_eq, SearchTree.find_insert_self, hfind]
    simp [hc, hd]
  · rw [h'.found_eq, h.found_eq, SearchTree.find_insert_of_ne hk']
    cases hfind' : t.find strcmp k' with
    | none => rfl
    | some q =>
      obtain ⟨c, hc, -⟩ := h.node_of_find hfind'
      obtain ⟨c', hc', hd'⟩ := hkept q (mem_cells_of_find hfind') c hc
      simp [hc, hc', hd']

/-- **`config_set_string`** makes its item the one of the key, and of no other. -/
theorem Represents.found_set (h : m.Represents S t) (k : CString) (d : ν) :
    ∃ m' t' a, m.configSetString S k d = some m' ∧ m'.Represents S t' ∧
      m'.found S k = some (some (a, d)) ∧ ∀ k' ≠ k, m'.found S k' = m.found S k' := by
  cases hfind : t.find strcmp k with
  | none =>
    obtain ⟨m', a, hrun, h', hself, hother⟩ := h.found_insert hfind d
    refine ⟨m', _, a, ?_, h', hself, hother⟩
    simp [configSetString, h.stringmapFind, hfind, hrun]
  | some a =>
    obtain ⟨c, hc, hkey⟩ := h.node_of_find hfind
    obtain ⟨m', hrun, h', hself, hother⟩ := h.storeItem hc d
    refine ⟨m', t, a, ?_, h', ?_, fun k' hk' => ?_⟩
    · simp [configSetString, h.stringmapFind, hfind, hrun]
    · rw [h'.found_eq, hfind]
      simp [hself]
    · rw [h'.found_eq, h.found_eq]
      cases hfind' : t.find strcmp k' with
      | none => rfl
      | some q =>
        -- two keys do not share a node
        have hqa : q ≠ a := by
          rintro rfl
          obtain ⟨c', hc', hkey'⟩ := h.node_of_find hfind'
          cases hc.symm.trans hc'
          exact hk' (Option.some.inj (hkey'.symm.trans hkey))
        simp [hother q hqa]

end Writes

end MapMem

/-! ## The partial function -/

/-- A call on the map. -/
inductive MapOp (ν : Type)
  | insert (k : CString) (d : ν)
  | find (k : CString)
  | setString (k : CString) (d : ν)
  deriving Repr

/-- The first item of a key stays, until another is set; an insertion and a search
answer with the item that was there. -/
def mapSpec (f : CString → Option ν) : MapOp ν → Option ((CString → Option ν) × Option ν)
  | .insert k d => some (Function.update f k (some ((f k).getD d)), f k)
  | .find k => some (f, f k)
  | .setString k d => some (Function.update f k (some d), none)

variable [Inhabited ν]

/-- The same calls, pointer by pointer; an answer is the item pointed to. -/
def mapStep (S : Nat) (m : MapMem ν) : MapOp ν → Option (MapMem ν × Option ν)
  | .insert k d => do
    let (m', p) ← m.stringmapInsert S k d
    some (m', (p.bind m'.node).map MapCell.d)
  | .find k => do
    let p ← m.stringmapFind S k
    some (m, (p.bind m.node).map MapCell.d)
  | .setString k d => do
    let m' ← m.configSetString S k d
    some (m', none)

/-- The map at `S` is a search tree with the items of `f`. -/
structure Stores (m : MapMem ν) (S : Nat) (f : CString → Option ν) : Prop where
  tree : ∃ t, m.Represents S t
  items : ∀ k, ∃ r, m.found S k = some r ∧ r.map Prod.snd = f k

section Steps

open MapMem

variable {m : MapMem ν} {S : Nat} {f : CString → Option ν} {t : SearchTree CString Nat}

omit [Inhabited ν] in
/-- The item of the node that the tree has for a key. -/
theorem Stores.item (h : Stores m S f) (ht : m.Represents S t) (k : CString) :
    ((t.find strcmp k).bind m.node).map MapCell.d = f k := by
  obtain ⟨r, hfound, hr⟩ := h.items k
  rw [ht.found_eq, Option.some_inj] at hfound
  rw [← hr, ← hfound]
  cases t.find strcmp k with
  | none => rfl
  | some a => cases hc : m.node a <;> simp [hc]

omit [Inhabited ν] in
/-- A key has a node exactly if it has an item. -/
theorem Stores.find_eq_none_iff (h : Stores m S f) (ht : m.Represents S t) {k : CString} :
    t.find strcmp k = none ↔ f k = none := by
  rw [← h.item ht k]
  cases hfind : t.find strcmp k with
  | none => simp
  | some a =>
    obtain ⟨c, hc, -⟩ := ht.node_of_find hfind
    simp [hc]

omit [Inhabited ν] in
/-- One key has a new item, the others are found as before. -/
theorem Stores.update {m' : MapMem ν} {t' : SearchTree CString Nat} (h : Stores m S f)
    (ht : m'.Represents S t') {k : CString} {p : Nat} {d : ν}
    (hself : m'.found S k = some (some (p, d)))
    (hother : ∀ k' ≠ k, m'.found S k' = m.found S k') :
    Stores m' S (Function.update f k (some d)) := by
  refine ⟨⟨t', ht⟩, fun k' => ?_⟩
  by_cases hk' : k' = k
  · subst hk'
    exact ⟨_, hself, by simp⟩
  · rw [hother k' hk', Function.update_of_ne hk']
    exact h.items k'

/-- **One call**: the map stays one, and answers as the partial function. -/
theorem Stores.step (h : Stores m S f) (op : MapOp ν) :
    ∃ m' f' r, mapStep S m op = some (m', r) ∧ mapSpec f op = some (f', r) ∧ Stores m' S f' := by
  obtain ⟨t, ht⟩ := h.tree
  cases op with
  | find k =>
    refine ⟨m, f, f k, ?_, rfl, h⟩
    rw [mapStep, ht.stringmapFind, Option.bind_eq_bind, Option.bind_some, h.item ht k]
  | setString k d =>
    obtain ⟨m', t', a, hrun, ht', hself, hother⟩ := ht.found_set k d
    exact ⟨m', _, none, by simp [mapStep, hrun], rfl, h.update ht' hself hother⟩
  | insert k d =>
    cases hfind : t.find strcmp k with
    | none =>
      have hf := (h.find_eq_none_iff ht).mp hfind
      obtain ⟨m', a, hrun, ht', hself, hother⟩ := ht.found_insert hfind d
      refine ⟨m', _, none, by simp [mapStep, hrun], by rw [mapSpec, hf], ?_⟩
      exact h.update ht' hself hother
    | some a =>
      have hitem := h.item ht k
      obtain ⟨c, hc, -⟩ := ht.node_of_find hfind
      rw [hfind, Option.bind_some, hc, Option.map_some] at hitem
      refine ⟨m, f, some c.d, ?_, ?_, h⟩
      · simp [mapStep, ht.insert_found hfind d, hc]
      · rw [mapSpec, ← hitem, Option.getD_some, hitem, Function.update_eq_self]

end Steps

open MapMem in
/-- **The first item wins.** From `stringmap_new` on every run of calls ends and answers
as the partial function does; the cells are a search tree; a key that was inserted is
found in a node of its own, and an insertion of it changes nothing; and a new key, or a
new item, leaves the nodes and the items of the other keys. -/
theorem stringmap_firstWins (m₀ : MapMem ν) (ops : List (MapOp ν)) :
    let S := m₀.stringmapNew.2
    ∃ m f rs, runReplies (mapStep S) m₀.stringmapNew.1 ops = some (m, rs) ∧
      runReplies mapSpec (fun _ => none) ops = some (f, rs) ∧
      (∃ t, m.Represents S t) ∧
      (∀ k, f k = none → m.found S k = some none) ∧
      (∀ k v, f k = some v → ∃ p c, m.found S k = some (some (p, v)) ∧
        m.node p = some c ∧ c.key = some k) ∧
      (∀ k d v, f k = some v → ∃ p, m.stringmapInsert S k d = some (m, some p) ∧
        m.found S k = some (some (p, v))) ∧
      (∀ k d, f k = none → ∃ m' p, m.stringmapInsert S k d = some (m', none) ∧
        m'.found S k = some (some (p, d)) ∧ ∀ k' ≠ k, m'.found S k' = m.found S k') ∧
      (∀ k d, ∃ m' p, m.configSetString S k d = some m' ∧
        m'.found S k = some (some (p, d)) ∧ ∀ k' ≠ k, m'.found S k' = m.found S k') := by
  intro S
  have hnew := represents_stringmapNew m₀
  have hstart : Stores m₀.stringmapNew.1 S fun _ => none :=
    ⟨⟨_, hnew⟩, fun k => ⟨none, hnew.found_eq k, rfl⟩⟩
  obtain ⟨m, f, rs, himpl, hspec, h⟩ :=
    runReplies_of_simulation (fun m f op hR => Stores.step hR op) ops hstart
  obtain ⟨t, ht⟩ := h.tree
  -- the node of a key that has an item
  have hnode : ∀ k v, f k = some v → ∃ p c, t.find strcmp k = some p ∧ m.node p = some c ∧
      c.key = some k ∧ m.found S k = some (some (p, v)) := by
    intro k v hv
    cases hfind : t.find strcmp k with
    | none => rw [(h.find_eq_none_iff ht).mp hfind] at hv; cases hv
    | some p =>
      obtain ⟨c, hc, hkey⟩ := ht.node_of_find hfind
      have hitem := h.item ht k
      rw [hfind, Option.bind_some, hc, hv] at hitem
      cases hitem
      exact ⟨p, c, rfl, hc, hkey, by simp [ht.found_eq, hfind, hc]⟩
  refine ⟨m, f, rs, himpl, hspec, ⟨t, ht⟩, ?_, ?_, ?_, ?_, ?_⟩
  · intro k hk
    rw [ht.found_eq, (h.find_eq_none_iff ht).mpr hk]
    rfl
  · intro k v hv
    obtain ⟨p, c, -, hc, hkey, hfound⟩ := hnode k v hv
    exact ⟨p, c, hfound, hc, hkey⟩
  · intro k d v hv
    obtain ⟨p, c, hfind, -, -, hfound⟩ := hnode k v hv
    exact ⟨p, ht.insert_found hfind d, hfound⟩
  · intro k d hk
    obtain ⟨m', p, hrun, -, hself, hother⟩ := ht.found_insert ((h.find_eq_none_iff ht).mpr hk) d
    exact ⟨m', p, hrun, hself, hother⟩
  · intro k d
    obtain ⟨m', -, p, hrun, -, hself, hother⟩ := ht.found_set k d
    exact ⟨m', p, hrun, hself, hother⟩

/-! ## The trees of the configuration -/

/-- The calls on the trees that the configuration is kept in. -/
def treeStep (t : StringMap) : MapOp CString → Option (StringMap × Option CString)
  | .insert k d => some (stringmapInsert t k d, stringmapFind t k)
  | .find k => some (t, stringmapFind t k)
  | .setString k d => some (configSetString t k d, none)

/-- One call on a tree is one on what is found in it. -/
theorem treeStep_spec (t : StringMap) (op : MapOp CString) :
    ∃ t' r, treeStep t op = some (t', r) ∧
      mapSpec (configGetString t) op = some (configGetString t', r) := by
  cases op with
  | insert k d =>
    refine ⟨_, _, rfl, ?_⟩
    rw [mapSpec, Option.some_inj, Prod.mk.injEq]
    refine ⟨funext fun k' => ?_, rfl⟩
    rw [configGetString_insert, Function.update_apply]
  | find k => exact ⟨_, _, rfl, rfl⟩
  | setString k d =>
    refine ⟨_, _, rfl, ?_⟩
    rw [mapSpec, Option.some_inj, Prod.mk.injEq]
    refine ⟨funext fun k' => ?_, rfl⟩
    rw [configGetString_set, Function.update_apply]

/-- **The cells refine the trees**: from an empty map the two answer alike. -/
theorem mapStep_refines (m₀ : MapMem CString) (ops : List (MapOp CString)) :
    ∃ m t rs, runReplies (mapStep m₀.stringmapNew.2) m₀.stringmapNew.1 ops = some (m, rs) ∧
      runReplies treeStep .leaf ops = some (t, rs) ∧
      Stores m m₀.stringmapNew.2 (configGetString t) := by
  have hnew := MapMem.represents_stringmapNew m₀
  refine runReplies_of_simulation (R := fun m t => Stores m _ (configGetString t)) ?_ ops
    ⟨⟨_, hnew⟩, fun k => ⟨none, hnew.found_eq k, rfl⟩⟩
  intro m t op h
  obtain ⟨m', f', r, himpl, hspec, h'⟩ := h.step op
  obtain ⟨t', r', htree, hspec'⟩ := treeStep_spec t op
  cases hspec.symm.trans hspec'
  exact ⟨m', t', r, himpl, htree, h'⟩

end Dotqoo.Config
