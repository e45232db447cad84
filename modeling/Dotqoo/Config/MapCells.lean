import Mathlib.Data.List.Basic
import Mathlib.Logic.Function.Basic
import Dotqoo.Config.StringMap
import Dotqoo.Lib.Runs

/-!
# `stringmap.c`, pointer by pointer

`Dotqoo.Config.StringMap` models a map as a tree. Here its cells lie in memory and
are linked by `l` and `g`; the walks of `stringmap_insert` and `stringmap_find`
follow the links from the root and write where they stop. `Represents` ties the
cells below a root to a tree, whose values are their addresses, and every function
has one lemma that says what it does to that tree.

Representation notes:
- An address is a number, and `xcalloc` hands out one that was never used.
- The walks are recursive in a fuel argument, which starts at `brk`: no way through
  a tree can be longer than the addresses handed out. `none` is a walk that runs out
  of it, or the key of a cell that has none given to `strcmp`.
- `item`, a word that is a pointer or a `long`, is a parameter; `default` is the one
  that `xcalloc` leaves.
-/

namespace Dotqoo.Config

open Dotqoo.Lib

variable {ν : Type}

/-- `struct _stringmap`. -/
structure MapCell (ν : Type) where
  key : Option CString
  d : ν
  l : Option Nat
  g : Option Nat

/-- The cells, and the first address that has not been handed out. -/
structure MapMem (ν : Type) where
  node : Nat → Option (MapCell ν)
  brk : Nat

namespace MapMem

/-- Write a cell. -/
def write (m : MapMem ν) (p : Nat) (c : MapCell ν) : MapMem ν :=
  { m with node := Function.update m.node p (some c) }

/-- `stringmap_new`. -/
def stringmapNew [Inhabited ν] (m : MapMem ν) : MapMem ν × Nat :=
  ({ node := Function.update m.node m.brk (some ⟨none, default, none, none⟩), brk := m.brk + 1 },
    m.brk)

/-- `S2->l = stringmap_new()`, or `S2->g`, with the key and the item of the new cell. -/
def attach [Inhabited ν] (m : MapMem ν) (p : Nat) (link : Nat → MapCell ν) (k : CString) (d : ν) :
    MapMem ν :=
  let (m, q) := m.stringmapNew
  (m.write p (link q)).write q ⟨some k, d, none, none⟩

/-- The loop of `stringmap_insert`. -/
def insertLoop [Inhabited ν] (k : CString) (d : ν) :
    Nat → MapMem ν → Nat → Option (MapMem ν × Option Nat)
  | 0, _, _ => none
  | fuel + 1, m, p => do
    let c ← m.node p
    let key ← c.key
    match strcmp k key with
    | .eq => some (m, some p)
    | .lt =>
      match c.l with
      | some l => insertLoop k d fuel m l
      | none => some (m.attach p (fun l => { c with l := some l }) k d, none)
    | .gt =>
      match c.g with
      | some g => insertLoop k d fuel m g
      | none => some (m.attach p (fun g => { c with g := some g }) k d, none)

/-- `stringmap_insert`: the memory, and the cell whose item it points to. -/
def stringmapInsert [Inhabited ν] (m : MapMem ν) (S : Nat) (k : CString) (d : ν) :
    Option (MapMem ν × Option Nat) := do
  let c ← m.node S
  match c.key with
  | none => some (m.write S { c with key := some k, d }, none)
  | some _ => insertLoop k d m.brk m S

/-- The loop of `stringmap_find`. -/
def findLoop (k : CString) (m : MapMem ν) : Nat → Nat → Option (Option Nat)
  | 0, _ => none
  | fuel + 1, p => do
    let c ← m.node p
    let key ← c.key
    match strcmp k key with
    | .eq => some (some p)
    | .lt =>
      match c.l with
      | some l => findLoop k m fuel l
      | none => some none
    | .gt =>
      match c.g with
      | some g => findLoop k m fuel g
      | none => some none

/-- `stringmap_find`. -/
def stringmapFind (m : MapMem ν) (S : Nat) (k : CString) : Option (Option Nat) := do
  let c ← m.node S
  match c.key with
  | none => some none
  | some _ => findLoop k m m.brk S

/-- `S->d = d`, of an allocated cell. -/
def storeItem (m : MapMem ν) (p : Nat) (d : ν) : Option (MapMem ν) := do
  let c ← m.node p
  some (m.write p { c with d })

/-- `config_set_string`, on any map. -/
def configSetString [Inhabited ν] (m : MapMem ν) (config : Nat) (directive : CString) (s : ν) :
    Option (MapMem ν) := do
  match ← m.stringmapFind config directive with
  | some S => m.storeItem S s
  | none => do
    let (m, _) ← m.stringmapInsert config directive s
    some m

/-! ## The tree in memory -/

/-- The cells from `p` on are those of a tree of addresses. -/
def Holds (m : MapMem ν) : Option Nat → SearchTree CString Nat → Prop
  | p, .leaf => p = none
  | p, .node l key a g => p = some a ∧
      ∃ c, m.node a = some c ∧ c.key = some key ∧ Holds m c.l l ∧ Holds m c.g g

/-- The addresses of a tree. -/
def cells (t : SearchTree CString Nat) : List Nat := t.toList.map Prod.snd

@[simp] theorem cells_node (l g : SearchTree CString Nat) (key : CString) (a : Nat) :
    cells (.node l key a g) = cells l ++ a :: cells g := by
  rw [cells, SearchTree.toList, List.map_append, List.map_cons, cells, cells]

variable {m m' : MapMem ν}

/-- The links of a tree are all that its shape depends on. -/
theorem Holds.congr {t : SearchTree CString Nat} {p : Option Nat} (h : m.Holds p t)
    (hsame : ∀ a ∈ cells t, ∀ c, m.node a = some c →
      ∃ c', m'.node a = some c' ∧ c'.key = c.key ∧ c'.l = c.l ∧ c'.g = c.g) : m'.Holds p t := by
  induction t generalizing p with
  | leaf => exact h
  | node l key a g ihl ihg =>
    obtain ⟨hp, c, hc, hkey, hl, hg⟩ := h
    obtain ⟨c', hc', hkey', hl', hg'⟩ := hsame a (by simp) c hc
    refine ⟨hp, c', hc', hkey'.trans hkey, ?_, ?_⟩
    · rw [hl']
      exact ihl hl fun q hq => hsame q (by simp [hq])
    · rw [hg']
      exact ihg hg fun q hq => hsame q (by simp [hq])

theorem Holds.frame {t : SearchTree CString Nat} {p : Option Nat} (h : m.Holds p t)
    (hsame : ∀ a ∈ cells t, m'.node a = m.node a) : m'.Holds p t :=
  h.congr fun a ha c hc => ⟨c, (hsame a ha).trans hc, rfl, rfl, rfl⟩

/-- No link leads to the empty tree only. -/
theorem Holds.eq_leaf {t : SearchTree CString Nat} (h : m.Holds none t) : t = .leaf := by
  cases t with
  | leaf => rfl
  | node => cases h.1

/-- The cell that is found has the key. -/
theorem Holds.key_of_mem {t : SearchTree CString Nat} {p : Option Nat} (h : m.Holds p t)
    {k : CString} {a : Nat} (hmem : (k, a) ∈ t.toList) :
    ∃ c, m.node a = some c ∧ c.key = some k := by
  induction t generalizing p with
  | leaf => cases hmem
  | node l key b g ihl ihg =>
    obtain ⟨-, c, hc, hkey, hl, hg⟩ := h
    rcases List.mem_append.mp hmem with hmem | hmem
    · exact ihl hl hmem
    · rcases List.mem_cons.mp hmem with heq | hmem
      · cases heq
        exact ⟨c, hc, hkey⟩
      · exact ihg hg hmem

/-! ## The walks -/

/-- **The walk of `stringmap_find`** is the one through the tree. -/
theorem Holds.findLoop {t : SearchTree CString Nat} {p fuel : Nat} (h : m.Holds (some p) t)
    (hfuel : t.toList.length ≤ fuel) (k : CString) :
    findLoop k m fuel p = some (t.find strcmp k) := by
  induction t generalizing p fuel with
  | leaf => cases h
  | node l key a g ihl ihg =>
    obtain ⟨hp, c, hc, hkey, hl, hg⟩ := h
    cases hp
    rw [SearchTree.toList, List.length_append, List.length_cons] at hfuel
    obtain ⟨fuel, rfl⟩ : ∃ n, fuel = n + 1 := ⟨fuel - 1, by omega⟩
    simp only [MapMem.findLoop, hc, hkey, Option.bind_eq_bind, Option.bind_some, SearchTree.find]
    cases strcmp k key with
    | eq => rfl
    | lt =>
      cases hcl : c.l with
      | none =>
        rw [hcl] at hl
        rw [hl.eq_leaf]
        rfl
      | some q => exact ihl (hcl ▸ hl) (by omega)
    | gt =>
      cases hcg : c.g with
      | none =>
        rw [hcg] at hg
        rw [hg.eq_leaf]
        rfl
      | some q => exact ihg (hcg ▸ hg) (by omega)

/-! ## A new cell -/

/-- Memory with one more cell, for which at most the links of some cells were written. -/
structure Added (m m' : MapMem ν) (cells : List Nat) (k : CString) (d : ν) : Prop where
  brk : m'.brk = m.brk + 1
  new : ∃ c, m'.node m.brk = some c ∧ c.key = some k ∧ c.d = d
  kept : ∀ q ≠ m.brk, ∀ c, m.node q = some c →
    ∃ c', m'.node q = some c' ∧ c'.key = c.key ∧ c'.d = c.d
  frame : ∀ q ∉ cells, q ≠ m.brk → m'.node q = m.node q

theorem Added.mono {cells cells' : List Nat} {k : CString} {d : ν}
    (h : Added m m' cells k d) (hsub : cells ⊆ cells') : Added m m' cells' k d :=
  ⟨h.brk, h.new, h.kept, fun q hq => h.frame q fun hmem => hq (hsub hmem)⟩

/-- The other trees are where they were. -/
theorem Added.beside {cells' : List Nat} {k : CString} {d : ν} (h : Added m m' cells' k d)
    {t : SearchTree CString Nat} {p : Option Nat} (ht : m.Holds p t)
    (hlt : ∀ q ∈ cells t, q < m.brk) (hdisj : List.Disjoint (cells t) cells') : m'.Holds p t :=
  ht.frame fun q hq => h.frame q (fun hmem => hdisj hq hmem) (Nat.ne_of_lt (hlt q hq))

section New

variable [Inhabited ν]

theorem attach_node (p : Nat) (link : Nat → MapCell ν) (k : CString) (d : ν) (q : Nat) :
    (m.attach p link k d).node q =
      if q = m.brk then some ⟨some k, d, none, none⟩
      else if q = p then some (link m.brk) else m.node q := by
  simp only [attach, stringmapNew, write, Function.update_apply]
  by_cases hq : q = m.brk
  · simp [hq]
  · simp [hq]

/-- The new cell is a tree of its own. -/
theorem holds_attach (p : Nat) (link : Nat → MapCell ν) (k : CString) (d : ν) :
    (m.attach p link k d).Holds (some m.brk) (.node .leaf k m.brk .leaf) :=
  ⟨rfl, ⟨some k, d, none, none⟩, by rw [attach_node, if_pos rfl], rfl, rfl, rfl⟩

theorem added_attach {p : Nat} {c : MapCell ν} (link : Nat → MapCell ν)
    (hc : m.node p = some c) (hkey : (link m.brk).key = c.key) (hd : (link m.brk).d = c.d)
    (k : CString) (d : ν) : Added m (m.attach p link k d) [p] k d := by
  refine ⟨rfl, ⟨_, by rw [attach_node, if_pos rfl], rfl, rfl⟩, ?_, ?_⟩
  · intro q hq c' hc'
    rw [attach_node, if_neg hq]
    by_cases hqp : q = p
    · subst hqp
      cases hc.symm.trans hc'
      exact ⟨_, if_pos rfl, hkey, hd⟩
    · rw [if_neg hqp]
      exact ⟨c', hc', rfl, rfl⟩
  · intro q hqp hq
    rw [attach_node, if_neg hq, if_neg (by simpa using hqp)]

/-- The walk of `stringmap_insert` stops at the key. -/
theorem Holds.insertLoop_found {t : SearchTree CString Nat} {p fuel : Nat}
    (h : m.Holds (some p) t) (hfuel : t.toList.length ≤ fuel) {k : CString} {a : Nat}
    (hfind : t.find strcmp k = some a) (d : ν) :
    insertLoop k d fuel m p = some (m, some a) := by
  induction t generalizing p fuel with
  | leaf => cases h
  | node l key b g ihl ihg =>
    obtain ⟨hp, c, hc, hkey, hl, hg⟩ := h
    cases hp
    rw [SearchTree.toList, List.length_append, List.length_cons] at hfuel
    obtain ⟨fuel, rfl⟩ : ∃ n, fuel = n + 1 := ⟨fuel - 1, by omega⟩
    simp only [insertLoop, hc, hkey, Option.bind_eq_bind, Option.bind_some]
    rw [SearchTree.find] at hfind
    cases hcmp : strcmp k key with
    | eq =>
      rw [hcmp] at hfind
      cases hfind
      rfl
    | lt =>
      rw [hcmp] at hfind
      cases hcl : c.l with
      | none =>
        rw [hcl] at hl
        rw [hl.eq_leaf] at hfind
        cases hfind
      | some q => exact ihl (hcl ▸ hl) (by omega) hfind
    | gt =>
      rw [hcmp] at hfind
      cases hcg : c.g with
      | none =>
        rw [hcg] at hg
        rw [hg.eq_leaf] at hfind
        cases hfind
      | some q => exact ihg (hcg ▸ hg) (by omega) hfind

/-- **A new key** gets a cell where the walk leaves the tree. -/
theorem Holds.insertLoop_new {t : SearchTree CString Nat} {p fuel : Nat}
    (h : m.Holds (some p) t) (hfuel : t.toList.length ≤ fuel) (hnodup : (cells t).Nodup)
    (hlt : ∀ a ∈ cells t, a < m.brk) {k : CString} (hfind : t.find strcmp k = none) (d : ν) :
    ∃ m', insertLoop k d fuel m p = some (m', none) ∧ Added m m' (cells t) k d ∧
      m'.Holds (some p) (t.insert strcmp k m.brk) := by
  induction t generalizing p fuel with
  | leaf => cases h
  | node l key a g ihl ihg =>
    obtain ⟨hp, ⟨ckey, cd, cl, cg⟩, hc, hkey, hl, hg⟩ := h
    cases hp
    dsimp only at hkey hl hg
    subst hkey
    rw [SearchTree.toList, List.length_append, List.length_cons] at hfuel
    obtain ⟨fuel, rfl⟩ : ∃ n, fuel = n + 1 := ⟨fuel - 1, by omega⟩
    have hfuell : l.toList.length ≤ fuel := by omega
    have hfuelg : g.toList.length ≤ fuel := by omega
    simp only [cells_node, List.mem_append, List.mem_cons] at hnodup hlt
    have ha : a ≠ m.brk := Nat.ne_of_lt (hlt a (Or.inr (Or.inl rfl)))
    have hltl : ∀ q ∈ cells l, q < m.brk := fun q hq => hlt q (Or.inl hq)
    have hltg : ∀ q ∈ cells g, q < m.brk := fun q hq => hlt q (Or.inr (Or.inr hq))
    obtain ⟨hnl, hng, hdisj⟩ := List.nodup_append.mp hnodup
    obtain ⟨hag, hng⟩ := List.nodup_cons.mp hng
    have hal : a ∉ cells l := fun hmem => hdisj a hmem a (List.mem_cons_self ..) rfl
    have hlg : List.Disjoint (cells l) (cells g) := fun q hq hmem =>
      hdisj q hq q (List.mem_cons_of_mem _ hmem) rfl
    rw [cells_node]
    simp only [insertLoop, hc, Option.bind_eq_bind, Option.bind_some]
    rw [SearchTree.find] at hfind
    cases hcmp : strcmp k key with
    | eq => simp [hcmp] at hfind
    | lt =>
      rw [hcmp] at hfind
      simp only [SearchTree.insert, hcmp]
      cases cl with
      | none =>
        obtain rfl := hl.eq_leaf
        have hadded := added_attach (fun l => ⟨some key, cd, some l, cg⟩) hc rfl rfl k d
        refine ⟨_, rfl, hadded.mono (by simp), rfl, ⟨some key, cd, some m.brk, cg⟩, ?_, rfl,
          holds_attach .., hadded.beside hg hltg ?_⟩
        · rw [attach_node, if_neg ha, if_pos rfl]
        · exact by simpa using hag
      | some q =>
        obtain ⟨m', hrun, hadded, hl'⟩ := ihl hl hfuell hnl hltl hfind
        refine ⟨m', hrun, hadded.mono (by simp), rfl, ⟨some key, cd, some q, cg⟩, ?_, rfl, hl',
          hadded.beside hg hltg fun q hq hmem => hlg hmem hq⟩
        rw [hadded.frame a hal ha, hc]
    | gt =>
      rw [hcmp] at hfind
      simp only [SearchTree.insert, hcmp]
      cases cg with
      | none =>
        obtain rfl := hg.eq_leaf
        have hadded := added_attach (fun g => ⟨some key, cd, cl, some g⟩) hc rfl rfl k d
        refine ⟨_, rfl, hadded.mono (by simp), rfl, ⟨some key, cd, cl, some m.brk⟩, ?_, rfl,
          hadded.beside hl hltl ?_, holds_attach ..⟩
        · rw [attach_node, if_neg ha, if_pos rfl]
        · exact by simpa using hal
      | some q =>
        obtain ⟨m', hrun, hadded, hg'⟩ := ihg hg hfuelg hng hltg hfind
        refine ⟨m', hrun, hadded.mono (by simp), rfl, ⟨some key, cd, cl, some q⟩, ?_, rfl,
          hadded.beside hl hltl hlg, hg'⟩
        rw [hadded.frame a hag ha, hc]

end New

end MapMem

end Dotqoo.Config
