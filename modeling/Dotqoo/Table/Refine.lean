import Dotqoo.Table.AddrHash
import Dotqoo.Table.Memory
import Dotqoo.Lib.Runs
import Dotqoo.Lib.Shadow

/-!
# The hash table as a map

Three levels, each tied to the next. In memory (`HashMem`) the nodes are linked
by pointers and hold their key as the bytes of an `addr_pair`, padding included.
A `HashType` has the chains as lists, and keys as values. A `Shadow` has no
buckets at all: a stack of records under every key, of which the newest is seen.

`Represents` relates the first two, `HashType.stack` reads the third off the
second, and `table_refines_map` puts the two together for the history table: any
sequence of calls is answered in memory as it is on the stacks.
-/

namespace Dotqoo.Table

open Dotqoo.Lib

variable {κ K R : Type}

/-- The callbacks of a table whose keys are stored as images: `compare` and `hash`
look at what an image stands for. -/
def HashFns.calls (F : HashFns κ) (value : K → κ) : HashCalls K where
  compare := fun a b => F.compare (value a) (value b)
  hash := fun k => F.hash (value k)
  size := F.size

@[simp] theorem HashFns.calls_compare (F : HashFns κ) (value : K → κ) (a b : K) :
    (F.calls value).compare a b = F.compare (value a) (value b) := rfl

@[simp] theorem HashFns.calls_hash (F : HashFns κ) (value : K → κ) (k : K) :
    (F.calls value).hash k = F.hash (value k) := rfl

/-! ## Chains as stacks -/

section Stack

variable {F : HashFns κ} (h : HashType F R)

/-- The records of a key, newest first. -/
def HashType.stack (h : HashType F R) : Shadow κ R := fun k =>
  ((h.table (F.hash k)).filter (fun n => F.compare n.key k)).map HashNode.record

theorem hashFind_eq_top (k : κ) : hashFind h k = h.stack.top k := by
  rw [hashFind, Shadow.top, HashType.stack, List.head?_map, List.head?_filter]

theorem stack_hashInitialise : (hashInitialise F R).stack = Shadow.empty κ R := rfl

variable [DecidableEq κ]

theorem stack_hashInsert (k : κ) (r : R) : (hashInsert h k r).stack = h.stack.push k r := by
  funext k'
  have htable : (hashInsert h k r).table (F.hash k')
      = if F.hash k' = F.hash k then ⟨k, r⟩ :: h.table (F.hash k') else h.table (F.hash k') := rfl
  by_cases hk : k' = k
  · subst hk
    have hself : F.compare k' k' = true := (F.compare_iff k' k').mpr rfl
    simp [HashType.stack, htable, Shadow.push, hself]
  · have hne : F.compare k k' = false := by
      rw [Bool.eq_false_iff]
      exact fun hc => hk ((F.compare_iff k k').mp hc).symm
    rw [Shadow.push, Function.update_of_ne hk, HashType.stack, htable]
    split
    next => rw [List.filter_cons_of_neg (by simp [hne])]; rfl
    next => rfl

theorem stack_hashDelete (k : κ) : (hashDelete h k).2.stack = h.stack.pop k := by
  funext k'
  have hself : ∀ n : HashNode κ R, F.compare n.key k = true → F.compare n.key k' = true → k' = k :=
    fun n hn hn' => ((F.compare_iff _ _).mp hn').symm.trans ((F.compare_iff _ _).mp hn)
  -- deleting is erasing the first match, also where there is none
  have htable : (hashDelete h k).2.table (F.hash k') = if F.hash k' = F.hash k
      then (h.table (F.hash k')).eraseP (fun n => F.compare n.key k) else h.table (F.hash k') := by
    unfold hashDelete
    split
    next => rfl
    next hany =>
      split
      next heq =>
        rw [heq]
        refine (List.eraseP_of_forall_not fun n hn hc => ?_).symm
        exact hany (List.any_eq_true.mpr ⟨n, hn, hc⟩)
      next => rfl
  by_cases hk : k' = k
  · subst hk
    rw [Shadow.pop, Function.update_self, HashType.stack, htable, if_pos rfl, filter_eraseP_self,
      List.map_tail]
    rfl
  · rw [Shadow.pop, Function.update_of_ne hk, HashType.stack, htable]
    split
    next =>
      rw [filter_eraseP_of_not fun n hn => ?_]
      · rfl
      · rw [Bool.eq_false_iff]
        exact fun hn' => hk (hself n hn hn')
    next => rfl

/-- A stored record is found under its key, the others as before. -/
theorem hashFind_hashInsert (k k' : κ) (r : R) :
    hashFind (hashInsert h k r) k' = if k' = k then some r else hashFind h k' := by
  rw [hashFind_eq_top, stack_hashInsert]
  split
  next hk => rw [hk, Shadow.top_push_self]
  next hk => rw [Shadow.top_push_of_ne _ _ hk, hashFind_eq_top]

theorem hashFind_hashDelete_of_ne {k k' : κ} (hk : k' ≠ k) :
    hashFind (hashDelete h k).2 k' = hashFind h k' := by
  rw [hashFind_eq_top, stack_hashDelete, Shadow.top_pop_of_ne _ hk, hashFind_eq_top]

omit [DecidableEq κ] in
theorem hashDelete_status (k : κ) :
    (hashDelete h k).1 = if h.stack k = [] then .keyNotFound else .ok := by
  have hany : (h.table (F.hash k)).any (fun n => F.compare n.key k) = true ↔ h.stack k ≠ [] := by
    rw [HashType.stack, ne_eq, List.map_eq_nil_iff, List.filter_eq_nil_iff, List.any_eq_true]
    simp
  unfold hashDelete
  by_cases hs : h.stack k = []
  · rw [if_pos hs, if_neg fun hc => hany.mp hc hs]
  · rw [if_neg hs, if_pos (hany.mpr hs)]

end Stack

/-! ## Memory as chains -/

section Represents

variable {F : HashFns κ} {value : K → κ} {m : HashMem K R} {h : HashType F R}

/-- A node without its address, its key read. -/
def asNode (value : K → κ) (x : Nat × HashNode K R) : HashNode κ R := ⟨value x.2.key, x.2.record⟩

/-- The memory holds the chains of the table. -/
def Represents (F : HashFns κ) (value : K → κ) (m : HashMem K R) (h : HashType F R) : Prop :=
  ∃ chains, Chained (F.calls value) m chains
    ∧ ∀ i < F.size, h.table i = (chains i).map (asNode value)

theorem Represents.initialise :
    Represents F value (HashMem.initialise K R) (hashInitialise F R) :=
  ⟨fun _ => [], Chained.initialise _, fun _ _ => rfl⟩

theorem Represents.hashFind (hr : Represents F value m h) (key : K) :
    m.hashFind (F.calls value) key = some (Table.hashFind h (value key)) := by
  obtain ⟨chains, hch, htable⟩ := hr
  have hlt := F.hash_lt (value key)
  rw [hch.hashFind hlt, Table.hashFind, htable _ hlt, List.find?_map, Option.map_map]
  rfl

theorem Represents.hashInsert (hr : Represents F value m h) (key : K) (record : R) :
    Represents F value (m.hashInsert (F.calls value) key record)
      (Table.hashInsert h (value key) record) := by
  obtain ⟨chains, hch, htable⟩ := hr
  refine ⟨_, hch.hashInsert key record, fun i hi => ?_⟩
  show (if i = F.hash (value key) then _ else _) = _
  rw [HashFns.calls_hash, Function.update_apply]
  split
  next hb =>
    rw [List.map_cons, htable i hi, hb]
    rfl
  next => exact htable i hi

/-- `hash_delete` does in memory what it does to the chains, and nothing if there
is no such key. -/
theorem Represents.hashDelete (hr : Represents F value m h) (key : K) :
    ∃ m', m.hashDelete (F.calls value) key = some ((Table.hashDelete h (value key)).1, m')
      ∧ Represents F value m' (Table.hashDelete h (value key)).2
      ∧ ((Table.hashDelete h (value key)).1 = .keyNotFound → m' = m) := by
  obtain ⟨chains, hch, htable⟩ := hr
  have hlt := F.hash_lt (value key)
  have htab := htable _ hlt
  cases hfind : (chains (F.hash (value key))).find?
      (fun x => F.compare (value x.2.key) (value key)) with
  | none =>
    have hmiss : ∀ x ∈ chains (F.hash (value key)),
        F.compare (value x.2.key) (value key) = false :=
      fun x hx => by simpa using List.find?_eq_none.mp hfind x hx
    have hany : ¬ (h.table (F.hash (value key))).any
        (fun n => F.compare n.key (value key)) = true := by
      rw [htab, List.any_map, List.any_eq_true]
      rintro ⟨x, hx, hc⟩
      exact Bool.false_ne_true ((hmiss x hx).symm.trans hc)
    refine ⟨m, ?_, ?_, fun _ => rfl⟩
    · rw [Table.hashDelete, if_neg hany]
      exact hch.hashDelete_miss hlt hmiss
    · rw [Table.hashDelete, if_neg hany]
      exact ⟨chains, hch, htable⟩
  | some x =>
    obtain ⟨a, n⟩ := x
    obtain ⟨pre, post, hl, hmiss, hhit⟩ := find?_split (F := F.calls value) hfind
    obtain ⟨m', hdel, hch'⟩ := hch.hashDelete_hit hlt hl hmiss hhit
    have hany : (h.table (F.hash (value key))).any
        (fun n => F.compare n.key (value key)) = true := by
      rw [htab, hl]
      simp only [List.map_append, List.map_cons, List.any_append, List.any_cons]
      rw [show F.compare (asNode value (a, n)).key (value key) = true from hhit]
      simp
    refine ⟨m', ?_, ⟨_, hch', fun i hi => ?_⟩, fun hc => ?_⟩
    · rw [Table.hashDelete, if_pos hany]
      exact hdel
    · rw [Table.hashDelete, if_pos hany]
      show (if i = F.hash (value key) then _ else _) = _
      rw [HashFns.calls_hash, Function.update_apply]
      split
      next hb =>
        have hpre : ∀ n ∈ pre.map (asNode value), ¬ F.compare n.key (value key) = true := by
          intro n hn
          obtain ⟨y, hy, rfl⟩ := List.mem_map.mp hn
          exact Bool.eq_false_iff.mp (hmiss y hy)
        have hx : F.compare (asNode value (a, n)).key (value key) = true := hhit
        rw [hb, htab, hl, List.map_append, List.map_cons, List.eraseP_append_right _ hpre,
          List.eraseP_cons, hx, cond_true, List.map_append]
      next => exact htable i hi
    · rw [Table.hashDelete, if_pos hany] at hc
      cases hc

theorem Represents.hashDeleteAll (hr : Represents F value m h) :
    ∃ m', m.hashDeleteAll (F.calls value) = some m'
      ∧ Represents F value m' (hashInitialise F R) := by
  obtain ⟨chains, hch, -⟩ := hr
  obtain ⟨m', hm', hch'⟩ := hch.hashDeleteAll
  exact ⟨m', hm', fun _ => [], hch', fun _ _ => rfl⟩

end Represents

/-! ## Sequences of calls -/

/-- A call of one of the functions of `hash.c`. -/
inductive TableCall (K R : Type) where
  | insert (key : K) (record : R)
  | delete (key : K)
  | find (key : K)
  | deleteAll

/-- The key a call is about. -/
def TableCall.key : TableCall K R → Option K
  | .insert key _ | .delete key | .find key => some key
  | .deleteAll => none

/-- What a call gives back: its status, and the record that was found. -/
structure Reply (R : Type) where
  status : HashStatus
  record : Option R

/-- The reply of a `hash_find`. -/
def Reply.found : Option R → Reply R
  | none => ⟨.keyNotFound, none⟩
  | some record => ⟨.ok, some record⟩

/-- One call, in memory. -/
def HashMem.call (F : HashCalls K) (m : HashMem K R) :
    TableCall K R → Option (HashMem K R × Reply R)
  | .insert key record => some (m.hashInsert F key record, ⟨.ok, none⟩)
  | .delete key => do
    let (status, m) ← m.hashDelete F key
    some (m, ⟨status, none⟩)
  | .find key => do
    let found ← m.hashFind F key
    some (m, Reply.found found)
  | .deleteAll => do
    let m ← m.hashDeleteAll F
    some (m, ⟨.ok, none⟩)

/-- What the call is meant to do: the stacks of the keys know nothing of buckets. -/
def shadowCall [DecidableEq κ] (value : K → κ) (s : Shadow κ R) :
    TableCall K R → Option (Shadow κ R × Reply R)
  | .insert key record => some (s.push (value key) record, ⟨.ok, none⟩)
  | .delete key =>
    if s (value key) = [] then some (s, ⟨.keyNotFound, none⟩)
    else some (s.pop (value key), ⟨.ok, none⟩)
  | .find key => some (s, Reply.found (s.top (value key)))
  | .deleteAll => some (Shadow.empty κ R, ⟨.ok, none⟩)

/-- What a memory with these stacks is like: every node is in its bucket,
`hash_find` sees the newest record of a key, `hash_delete` removes that one or
reports that there is none, and a call about one key is not seen under another. -/
structure Models [DecidableEq κ] (F : HashFns κ) (value : K → κ) (m : HashMem K R)
    (s : Shadow κ R) : Prop where
  chained : ∃ chains, Chained (F.calls value) m chains
  find : ∀ k, m.hashFind (F.calls value) k = some (s.top (value k))
  missing : ∀ k, s (value k) = [] → m.hashDelete (F.calls value) k = some (.keyNotFound, m)
  delete : ∀ k, s (value k) ≠ [] → ∃ m', m.hashDelete (F.calls value) k = some (.ok, m')
    ∧ ∀ k', m'.hashFind (F.calls value) k'
        = some (if value k' = value k then (s (value k)).tail.head? else s.top (value k'))
  frame : ∀ c k k', c.key = some k → value k' ≠ value k → ∃ m' r,
    m.call (F.calls value) c = some (m', r)
      ∧ m'.hashFind (F.calls value) k' = m.hashFind (F.calls value) k'

section Calls

variable [DecidableEq κ] {F : HashFns κ} {value : K → κ} {m : HashMem K R} {s : Shadow κ R}

/-- The memory holds a table with these stacks. -/
def HasStacks (F : HashFns κ) (value : K → κ) (m : HashMem K R) (s : Shadow κ R) : Prop :=
  ∃ h : HashType F R, Represents F value m h ∧ h.stack = s

omit [DecidableEq κ] in
theorem HasStacks.find (hs : HasStacks F value m s) (k : K) :
    m.hashFind (F.calls value) k = some (s.top (value k)) := by
  obtain ⟨h, hr, rfl⟩ := hs
  rw [hr.hashFind, hashFind_eq_top]

theorem HasStacks.delete (hs : HasStacks F value m s) (k : K) :
    ∃ m', m.hashDelete (F.calls value) k
        = some (if s (value k) = [] then .keyNotFound else .ok, m')
      ∧ HasStacks F value m' (s.pop (value k)) ∧ (s (value k) = [] → m' = m) := by
  obtain ⟨h, hr, rfl⟩ := hs
  obtain ⟨m', hm', hr', hmiss⟩ := hr.hashDelete k
  rw [hashDelete_status] at hm' hmiss
  refine ⟨m', hm', ⟨_, hr', stack_hashDelete h (value k)⟩, fun hnil => hmiss (if_pos hnil)⟩

/-- One call, in memory and on the stacks. -/
theorem HasStacks.call (hs : HasStacks F value m s) (c : TableCall K R) :
    ∃ m' s' r, m.call (F.calls value) c = some (m', r) ∧ shadowCall value s c = some (s', r)
      ∧ HasStacks F value m' s' := by
  cases c with
  | insert k record =>
    obtain ⟨h, hr, rfl⟩ := hs
    exact ⟨_, _, _, rfl, rfl, _, hr.hashInsert k record, stack_hashInsert h (value k) record⟩
  | delete k =>
    obtain ⟨m', hm', hs', hmiss⟩ := hs.delete k
    by_cases hnil : s (value k) = []
    · refine ⟨m, s, ⟨.keyNotFound, none⟩, ?_, by simp [shadowCall, hnil], hs⟩
      rw [HashMem.call, hm', if_pos hnil, hmiss hnil]
      rfl
    · refine ⟨m', _, ⟨.ok, none⟩, ?_, by simp [shadowCall, hnil], hs'⟩
      rw [HashMem.call, hm', if_neg hnil]
      rfl
  | find k => exact ⟨m, s, _, by rw [HashMem.call, hs.find]; rfl, rfl, hs⟩
  | deleteAll =>
    obtain ⟨h, hr, -⟩ := hs
    obtain ⟨m', hm', hr'⟩ := hr.hashDeleteAll
    exact ⟨m', _, _, by rw [HashMem.call, hm']; rfl, rfl, _, hr', stack_hashInitialise⟩

/-- A call about one key leaves the stacks of the others alone. -/
theorem shadowCall_frame {c : TableCall K R} {k : K} {k' : κ} (hk : c.key = some k)
    (hne : k' ≠ value k) {s' : Shadow κ R} {r : Reply R} (h : shadowCall value s c = some (s', r)) :
    s'.top k' = s.top k' := by
  cases c with
  | insert key record =>
    cases hk
    cases h
    exact s.top_push_of_ne record hne
  | delete key =>
    cases hk
    rw [shadowCall] at h
    split at h
    next => cases h; rfl
    next => cases h; exact s.top_pop_of_ne hne
  | find key => cases h; rfl
  | deleteAll => cases hk

theorem HasStacks.models (hs : HasStacks F value m s) : Models F value m s where
  chained := by
    obtain ⟨h, ⟨chains, hch, -⟩, -⟩ := hs
    exact ⟨chains, hch⟩
  find := hs.find
  missing := fun k hnil => by
    obtain ⟨m', hm', -, hmiss⟩ := hs.delete k
    rw [if_pos hnil, hmiss hnil] at hm'
    exact hm'
  delete := fun k hsome => by
    obtain ⟨m', hm', hs', -⟩ := hs.delete k
    rw [if_neg hsome] at hm'
    refine ⟨m', hm', fun k' => ?_⟩
    rw [hs'.find k']
    split
    next heq => rw [heq, Shadow.top_pop_self]
    next hne => rw [Shadow.top_pop_of_ne s hne]
  frame := fun c k k' hk hne => by
    obtain ⟨m', s', r, hm', hs', hstacks⟩ := hs.call c
    exact ⟨m', r, hm', by rw [hstacks.find, hs.find, shadowCall_frame hk hne hs']⟩

end Calls

/-! ## The history table -/

/-- The bytes of a stored `addr_pair`: its fields, and what is between them. -/
structure KeyImage where
  pair : AddrPair
  padding : UInt16

/-- The callbacks that `addr_hash_create` installs. -/
def addrCalls : HashCalls KeyImage := addrHash.calls KeyImage.pair

/-- **The history table is a finite map.** Every sequence of calls from the empty
table is answered in memory as on the stacks, and ends in a memory that is like
them; keys compare equal exactly if their fields are equal, whatever the padding,
and then they share a bucket of the table. -/
theorem table_refines_map {R : Type} (calls : List (TableCall KeyImage R)) :
    (∃ m s replies,
      runReplies (HashMem.call addrCalls) (HashMem.initialise KeyImage R) calls
          = some (m, replies)
        ∧ runReplies (shadowCall KeyImage.pair) (Shadow.empty AddrPair R) calls
          = some (s, replies)
        ∧ Models addrHash KeyImage.pair m s)
      ∧ ∀ a b : KeyImage, (addrCalls.compare a b = true ↔ a.pair = b.pair)
        ∧ (addrCalls.compare a b = true → addrCalls.hash a = addrCalls.hash b)
        ∧ addrCalls.hash a < addrCalls.size := by
  constructor
  · have hinit : HasStacks addrHash KeyImage.pair (HashMem.initialise KeyImage R)
        (Shadow.empty AddrPair R) := ⟨_, Represents.initialise, stack_hashInitialise⟩
    have hstep : ∀ (m : HashMem KeyImage R) (s : Shadow AddrPair R) (c : TableCall KeyImage R),
        HasStacks addrHash KeyImage.pair m s → ∃ m' s' r, m.call addrCalls c = some (m', r)
          ∧ shadowCall KeyImage.pair s c = some (s', r) ∧ HasStacks addrHash KeyImage.pair m' s' :=
      fun m s c h => h.call c
    obtain ⟨m, s, replies, hm, hs, hstacks⟩ := runReplies_of_simulation hstep calls hinit
    exact ⟨m, s, replies, hm, hs, hstacks.models⟩
  · intro a b
    have hiff : addrCalls.compare a b = true ↔ a.pair = b.pair := addrHash.compare_iff _ _
    refine ⟨hiff, fun hc => ?_, addrHash.hash_lt a.pair⟩
    show addrHash.hash a.pair = addrHash.hash b.pair
    rw [hiff.mp hc]

end Dotqoo.Table
