import Dotqoo.Lib.Runs
import Dotqoo.Client.Views

/-!
# The two threads of the client

`connect_MQTT` starts a thread for the network loop, which calls `on_message`; the main
thread reads the keyboard. Both use the global `table`, with no lock. What they can do to
each other is little, since only the receiving thread writes to a dictionary and only the
main thread gives the name `table` a new one:

- A request may come while a later use of the name, for the record in hand, needs the key
  that an earlier one has seen in the dictionary or puts there. The later use finds a
  dictionary without the key: a `KeyError` in `save_data`. Between the test and the entry of
  a new key a request does no harm: the key is entered in the new dictionary.
- A record may add a key while `process` goes over the dictionary: a `RuntimeError`.

`threads_survive_iff` says exactly when. Otherwise the threads do not disturb each other:
every record is filed once, in order, in one dictionary (`filed_once`).

Mirroring notes:
- A byte code is one step under the lock of the interpreter. Steps of the receiving thread
  are put together where nobody can tell: what a dictionary has is read when the name is
  looked up, as no other thread writes to it; the loop over the rows of a key is one step.
- `iteritems` notices by the number of the keys that the dictionary has changed, at each
  item and at the end. The order of the keys is left open in Python, and is that of the
  insertions here.
- The messages are those that unpack to the end. What is printed, `received` and the
  numbers in `stat` are left out: `stat` is the list of its keys.
-/

namespace Dotqoo.Client

open Dotqoo.Lib

/-! ## Dictionaries -/

/-- A dictionary: what it has, and its keys. -/
structure Dict where
  table : Table
  keys : List Key

/-- `{}`. -/
def Dict.empty : Dict := ⟨emptyTable, []⟩

/-- `d[key] = rows`, and also a change of the list that is there. -/
def Dict.store (d : Dict) (key : Key) (rows : List Row) : Dict where
  table := Function.update d.table key (some rows)
  keys := if (d.table key).isNone then d.keys ++ [key] else d.keys

/-! ## The program -/

/-- Where the receiving thread is in the body of the loop of `save_data`. A number is a
dictionary that it has in hand, or for `fetch` and `refetch` the one that it has seen the
key in. -/
inductive Point where
  | start
  -- in front of `table[(boxid, inner_ip)] = []`, and with its dictionary
  | create
  | createIn (d : Nat)
  -- in front of `table[(boxid, inner_ip)]`, and with the list
  | fetch (seen : Nat)
  | file (d : Nat)
  -- in front of the second `table[(boxid, inner_ip)]`, and with the list
  | refetch (seen : Nat)
  | append (d : Nat)
  -- `KeyError`
  | raised (seen : Nat)
  deriving DecidableEq, Repr

/-- Where the main thread is. -/
inductive Keyboard where
  | ready
  -- the loop of `process`: the dictionary, the number of its keys at the start, the next key
  | iterating (d used pos : Nat)
  -- the loop of `print_stat`
  | printing (left : List Key)
  -- an exception, which ends the program
  | raised
  deriving DecidableEq, Repr

/-- The program. The dictionaries have numbers, and `table` names the last one. The code
keeps neither `taken`, which is all records so far, nor `filed`, which is the records filed
in each dictionary. -/
structure Program where
  heap : Nat → Dict
  current : Nat
  stat : List Key
  keyboard : Keyboard
  boxid : Int
  todo : List Tuple
  point : Point
  taken : List (Int × Tuple)
  filed : Nat → List (Int × Tuple)

/-- The program as the thread is started. -/
def threadStart : Program where
  heap := fun _ => Dict.empty
  current := 0
  stat := []
  keyboard := .ready
  boxid := 0
  todo := []
  point := .start
  taken := []
  filed := fun _ => []

namespace Program

/-- The name `table` leads to a dictionary with the key. -/
def named (p : Program) (key : Key) : Bool := ((p.heap p.current).table key).isSome

/-- A value is stored in a dictionary. -/
def store (p : Program) (d : Nat) (key : Key) (rows : List Row) : Program :=
  { p with heap := Function.update p.heap d ((p.heap d).store key rows) }

/-- The record is done with, in a dictionary. -/
def done (p : Program) (d : Nat) (t : Tuple) (rest : List Tuple) : Program :=
  { p with
    todo := rest
    point := .start
    filed := Function.update p.filed d (p.filed d ++ [(p.boxid, t)]) }

/-- `(boxid, inner_ip)`. -/
def keyOf (p : Program) (t : Tuple) : Key := (p.boxid, swapEndian t.innerIp)

/-- The list of a key. -/
def rowsIn (p : Program) (d : Nat) (key : Key) : List Row := ((p.heap d).table key).getD []

end Program

/-- A row for the outer address of a record is there. -/
def hasRow (t : Tuple) (rows : List Row) : Bool :=
  rows.any fun conn => conn.outerIp = swapEndian t.outerIp

/-- The next step of `save_data`, with the record `t`. -/
def receive (port : Bool) (p : Program) (t : Tuple) (rest : List Tuple) : Program :=
  let key := p.keyOf t
  match p.point with
  | .start =>
    if isInner (swapEndian t.innerIp) = false then p.done p.current t rest
    else if p.named key then { p with point := .fetch p.current }
    else { p with point := .create }
  | .create => { p with point := .createIn p.current }
  | .createIn d => { p.store d key [] with point := .fetch d }
  | .fetch seen =>
    if p.named key then { p with point := .file p.current } else { p with point := .raised seen }
  | .file d =>
    if port then (p.store d key (p.rowsIn d key ++ [newRow t t.outerPort])).done d t rest
    else if hasRow t (p.rowsIn d key) then
      (p.store d key (mergeRows t (p.rowsIn d key))).done d t rest
    else { p with point := .refetch d }
  | .refetch seen =>
    if p.named key then { p with point := .append p.current }
    else { p with point := .raised seen }
  | .append d => (p.store d key (p.rowsIn d key ++ [newRow t 0])).done d t rest
  | .raised _ => p

/-- The next step of a loop over a dictionary. -/
def next (p : Program) : Program :=
  match p.keyboard with
  | .ready => p
  | .iterating d used pos =>
    if (p.heap d).keys.length ≠ used then { p with keyboard := .raised }
    else
      match (p.heap d).keys[pos]? with
      | some key =>
        { p with
          keyboard := .iterating d used (pos + 1)
          stat := if key ∈ p.stat then p.stat else p.stat ++ [key] }
      | none => { p with keyboard := .printing p.stat }
  | .printing [] => { p with keyboard := .ready }
  | .printing (key :: left) =>
    if p.named key then { p with keyboard := .printing left } else { p with keyboard := .raised }
  | .raised => p

/-- What can happen next. -/
inductive ThreadEvent where
  -- `on_message` is called with a message of these records
  | message (boxid : Int) (ts : List Tuple)
  -- the receiving thread goes on
  | receive
  -- `b` or `r`: the globals are cleared
  | clear
  -- `p`
  | print
  -- the main thread goes on
  | next
  deriving DecidableEq, Repr

/-- One step of one thread. The main thread reads a line only when it is ready, and a
message waits for the one before. -/
def threadStep (port : Bool) (p : Program) : ThreadEvent → Program
  | .message boxid ts =>
    if p.todo = [] then
      { p with boxid, todo := ts, taken := p.taken ++ ts.map fun t => (boxid, t) }
    else p
  | .receive =>
    match p.todo with
    | [] => p
    | t :: rest => receive port p t rest
  | .clear =>
    if p.keyboard = .ready then { p with current := p.current + 1, stat := [] } else p
  | .print =>
    if p.keyboard = .ready then
      { p with keyboard := .iterating p.current (p.heap p.current).keys.length 0 }
    else p
  | .next => next p

/-! ## What the dictionaries hold -/

namespace Dict

/-- The keys are those that have a value. -/
def Keyed (d : Dict) : Prop := ∀ key, key ∈ d.keys ↔ d.table key ≠ none

theorem keyed_empty : Dict.empty.Keyed := fun _ => by simp [Dict.empty, emptyTable]

theorem table_store_self (d : Dict) (key : Key) (rows : List Row) :
    (d.store key rows).table key = some rows := Function.update_self ..

theorem table_store_of_ne (d : Dict) {key key' : Key} (h : key' ≠ key) (rows : List Row) :
    (d.store key rows).table key' = d.table key' := Function.update_of_ne h ..

/-- What has a value keeps one. -/
theorem table_store_ne_none (d : Dict) {key key' : Key} (rows : List Row)
    (h : d.table key' ≠ none) : (d.store key rows).table key' ≠ none := by
  by_cases hkey : key' = key
  · rw [hkey, table_store_self]
    exact Option.some_ne_none rows
  · rwa [table_store_of_ne d hkey]

theorem keys_store_of_ne_none (d : Dict) {key : Key} (rows : List Row) (h : d.table key ≠ none) :
    (d.store key rows).keys = d.keys := by
  have hno : ¬ (d.table key).isNone = true := by simpa using h
  exact if_neg hno

theorem keys_store_of_none (d : Dict) {key : Key} (rows : List Row) (h : d.table key = none) :
    (d.store key rows).keys = d.keys ++ [key] := by
  rw [store, h]
  rfl

theorem Keyed.store {d : Dict} (h : d.Keyed) (key : Key) (rows : List Row) :
    (d.store key rows).Keyed := by
  intro key'
  have hmem : key' ∈ (d.store key rows).keys ↔ key' ∈ d.keys ∨ key' = key := by
    by_cases hkey : d.table key = none
    · rw [keys_store_of_none d rows hkey, List.mem_append, List.mem_singleton]
    · rw [keys_store_of_ne_none d rows hkey]
      refine ⟨Or.inl, fun hor => hor.elim id fun heq => ?_⟩
      rw [heq]
      exact (h key).mpr hkey
  rw [hmem, h key']
  by_cases hkey : key' = key
  · rw [hkey, table_store_self]
    simp
  · rw [table_store_of_ne d hkey]
    simp [hkey]

theorem length_keys_store_le (d : Dict) (key : Key) (rows : List Row) :
    d.keys.length ≤ (d.store key rows).keys.length := by
  by_cases hkey : d.table key = none
  · rw [keys_store_of_none d rows hkey, List.length_append]
    exact Nat.le_add_right _ _
  · rw [keys_store_of_ne_none d rows hkey]

end Dict

/-- A dictionary has what was filed in it, for one key. -/
def Program.Exact (port : Bool) (p : Program) (d : Nat) (key : Key) : Prop :=
  (p.heap d).table key = savePairs port (p.filed d) emptyTable key

/-- The dictionaries behind this one are new. -/
structure Program.Last (p : Program) (d : Nat) : Prop where
  le : d ≤ p.current
  later : ∀ d', d < d' → p.heap d' = Dict.empty ∧ p.filed d' = []

/-- A record is being filed: the list of its key is there, without it. -/
structure Program.Opened (port : Bool) (p : Program) (d : Nat) (key : Key) : Prop where
  last : p.Last d
  here : (p.heap d).table key = some ((savePairs port (p.filed d) emptyTable key).getD [])
  others : ∀ d' key', d' ≠ d ∨ key' ≠ key → p.Exact port d' key'

/-- What holds at a point while `t` is being filed. -/
def Program.Going (port : Bool) (p : Program) (t : Tuple) : Point → Prop
  | .start => True
  | .create => isInner (swapEndian t.innerIp) = true ∧ (∀ d key, p.Exact port d key) ∧
      (p.heap p.current).table (p.keyOf t) = none
  | .createIn d => isInner (swapEndian t.innerIp) = true ∧ (∀ d key, p.Exact port d key) ∧
      p.Last d ∧ (p.heap d).table (p.keyOf t) = none
  | .fetch d | .file d => isInner (swapEndian t.innerIp) = true ∧ p.Opened port d (p.keyOf t)
  | .refetch d | .append d => isInner (swapEndian t.innerIp) = true ∧
      p.Opened port d (p.keyOf t) ∧ port = false ∧ hasRow t (p.rowsIn d (p.keyOf t)) = false
  | .raised _ => True

/-- What holds of the main thread. -/
def Program.Reading (p : Program) : Prop :=
  match p.keyboard with
  | .ready => True
  | .iterating d used _ => d = p.current ∧ used ≤ (p.heap d).keys.length
  | .printing left => ∀ key ∈ left, (p.heap p.current).table key ≠ none
  | .raised => True

/-- What holds in every run. -/
structure Program.Inv (port : Bool) (p : Program) : Prop where
  fresh : p.Last p.current
  keyed : ∀ d, (p.heap d).Keyed
  taken : p.taken
    = (List.range (p.current + 1)).flatMap p.filed ++ p.todo.map fun t => (p.boxid, t)
  idle : p.todo = [] → p.point = .start
  exact : p.point = .start → ∀ d key, p.Exact port d key
  going : ∀ t rest, p.todo = t :: rest → p.Going port t p.point
  reading : p.Reading
  stat : ∀ key ∈ p.stat, (p.heap p.current).table key ≠ none

/-! ## One step of the receiving thread -/

/-- Without a row for its outer address a record gets one of its own. -/
theorem mergeRows_of_not_hasRow {t : Tuple} : ∀ {rows : List Row}, hasRow t rows = false →
    mergeRows t rows = rows ++ [newRow t 0]
  | [], _ => rfl
  | conn :: rows, h => by
    rw [hasRow, List.any_cons, Bool.or_eq_false_iff] at h
    rw [mergeRows, if_neg (of_decide_eq_false h.1), mergeRows_of_not_hasRow h.2]
    rfl

/-- One more in the last list that is not empty. -/
theorem flatMap_update_last {α : Type} {f : Nat → List α} {d : Nat} (x : α)
    (hlater : ∀ d', d < d' → f d' = []) : ∀ n, d < n →
      (List.range n).flatMap (Function.update f d (f d ++ [x])) = (List.range n).flatMap f ++ [x]
  | 0, h => absurd h (Nat.not_lt_zero d)
  | n + 1, h => by
    rw [List.range_succ, List.flatMap_append, List.flatMap_append, List.flatMap_singleton,
      List.flatMap_singleton]
    by_cases hd : d = n
    · have hbefore : (List.range n).flatMap (Function.update f d (f d ++ [x]))
          = (List.range n).flatMap f := by
        refine List.flatMap_congr fun d' hd' => ?_
        have hlt := List.mem_range.mp hd'
        exact Function.update_of_ne (by omega) _ _
      rw [hbefore, ← hd, Function.update_self, List.append_assoc]
    · have hnil : f n = [] := hlater n (by omega)
      rw [Function.update_of_ne (Ne.symm hd), hnil, List.append_nil, List.append_nil,
        flatMap_update_last x hlater n (by omega)]

section Receive

variable {port : Bool} {p : Program} {t : Tuple} {rest : List Tuple} {d : Nat}

/-- Behind the record that is filed. -/
theorem savePairs_concat (pairs : List (Int × Tuple)) (boxid : Int) (t : Tuple) (table : Table) :
    savePairs port (pairs ++ [(boxid, t)]) table
      = saveRecord port boxid t (savePairs port pairs table) := by
  rw [savePairs, List.foldl_append]
  rfl

/-- A record of another network is filed by leaving it out. -/
theorem Program.exact_skip (hout : isInner (swapEndian t.innerIp) = false)
    (h : ∀ d key, p.Exact port d key) (d' : Nat) (key : Key) :
    (p.done d t rest).Exact port d' key := by
  unfold Exact done
  dsimp only
  by_cases hd : d' = d
  · rw [hd, Function.update_self, savePairs_concat, saveRecord_outside hout]
    exact h d key
  · rw [Function.update_of_ne hd]
    exact h d' key

/-- A record is filed among the rows of its key. -/
theorem Program.Opened.exact_done (h : p.Opened port d (p.keyOf t))
    (hin : isInner (swapEndian t.innerIp) = true) {rows : List Row}
    (hrows : rows = fileRow port t (p.rowsIn d (p.keyOf t))) (d' : Nat) (key : Key) :
    ((p.store d (p.keyOf t) rows).done d t rest).Exact port d' key := by
  unfold Exact done store
  dsimp only
  by_cases hd : d' = d
  · rw [hd, Function.update_self, Function.update_self, savePairs_concat, saveRecord_inside hin]
    by_cases hkey : key = p.keyOf t
    · rw [hkey, Dict.table_store_self, hrows, rowsIn, h.here]
      unfold keyOf
      rw [Function.update_self, Option.getD_some]
    · rw [Dict.table_store_of_ne _ hkey]
      exact (h.others d key (Or.inr hkey)).trans (Function.update_of_ne hkey ..).symm
  · rw [Function.update_of_ne hd, Function.update_of_ne hd]
    exact h.others d' key (Or.inl hd)

/-- The name leads to the dictionary that has the key, or to a new one. -/
theorem Program.Opened.named_iff {key : Key} (h : p.Opened port d key) :
    p.named key = true ↔ d = p.current := by
  constructor
  · intro hnamed
    by_contra hne
    have hnew := (h.last.later p.current (Nat.lt_of_le_of_ne h.last.le hne)).1
    rw [named, hnew] at hnamed
    cases hnamed
  · intro heq
    rw [named, ← heq, h.here]
    rfl

theorem Program.opened_of_exact (hexact : ∀ d key, p.Exact port d key) (hlast : p.Last d)
    {key : Key} (hkey : (p.heap d).table key ≠ none) : p.Opened port d key where
  last := hlast
  here := by
    obtain ⟨rows, hrows⟩ := Option.ne_none_iff_exists'.mp hkey
    rw [← hexact d key, hrows]
    rfl
  others := fun d' key' _ => hexact d' key'

/-- The key is put into the dictionary in hand. -/
theorem Program.opened_store (hexact : ∀ d key, p.Exact port d key) (hlast : p.Last d) {key : Key}
    (hkey : (p.heap d).table key = none) :
    ({ p.store d key [] with point := .fetch d } : Program).Opened port d key where
  last :=
    { le := hlast.le
      later := fun d' hd' => by
        show Function.update p.heap d _ d' = _ ∧ _
        rw [Function.update_of_ne (Nat.ne_of_gt hd')]
        exact hlast.later d' hd' }
  here := by
    show (Function.update p.heap d ((p.heap d).store key []) d).table key = _
    rw [Function.update_self, Dict.table_store_self]
    show some [] = some ((savePairs port (p.filed d) emptyTable key).getD [])
    rw [← hexact d key, hkey]
    rfl
  others := fun d' key' hne => by
    show (Function.update p.heap d ((p.heap d).store key []) d').table key' = _
    by_cases hd : d' = d
    · rw [hd, Function.update_self, Dict.table_store_of_ne _ (hne.resolve_left (not_not.mpr hd))]
      exact hexact d key'
    · rw [Function.update_of_ne hd]
      exact hexact d' key'

/-- What a step of the receiving thread can do: it is done with the record, it puts the key
into a dictionary, or it only goes on. -/
inductive Program.Received (port : Bool) (p : Program) (t : Tuple) (rest : List Tuple) :
    Program → Prop where
  | finish (d : Nat) (heap : Nat → Dict) (last : p.Last d)
      (written : heap = p.heap ∨ (p.heap d).table (p.keyOf t) ≠ none ∧
        ∃ rows, heap = Function.update p.heap d ((p.heap d).store (p.keyOf t) rows))
      (exact : ∀ d' key, (({ p with heap } : Program).done d t rest).Exact port d' key)
      (other : ∀ d', p.point ≠ .createIn d') :
      Received port p t rest (({ p with heap } : Program).done d t rest)
  | insert (d : Nat) (point : p.point = .createIn d) (last : p.Last d)
      (missing : (p.heap d).table (p.keyOf t) = none)
      (going : ({ p.store d (p.keyOf t) [] with point := .fetch d } : Program).Going port t
        (.fetch d)) :
      Received port p t rest { p.store d (p.keyOf t) [] with point := .fetch d }
  | move (point : Point) (busy : point ≠ .start) (going : p.Going port t point)
      (other : ∀ d, p.point ≠ .createIn d) :
      Received port p t rest { p with point }

theorem Program.Inv.received (h : p.Inv port) (htodo : p.todo = t :: rest) :
    p.Received port t rest (receive port p t rest) := by
  have hgoing := h.going t rest htodo
  have hcurrent : ∀ {d : Nat}, p.Opened port d (p.keyOf t) → p.named (p.keyOf t) = true →
      p.Opened port p.current (p.keyOf t) := by
    intro d hopened hnamed
    rwa [← hopened.named_iff.mp hnamed]
  unfold Going at hgoing
  unfold receive
  split at hgoing
  next hpoint =>
    have hother : ∀ d, p.point ≠ .createIn d := fun d h => Point.noConfusion (hpoint.symm.trans h)
    -- the record is looked at, and then the dictionary
    have hexact := h.exact hpoint
    dsimp only
    by_cases hin : isInner (swapEndian t.innerIp) = false
    · rw [if_pos hin]
      exact .finish p.current p.heap h.fresh (Or.inl rfl) (exact_skip hin hexact) hother
    · have hinner : isInner (swapEndian t.innerIp) = true := by simpa using hin
      rw [if_neg hin]
      by_cases hnamed : p.named (p.keyOf t) = true
      · have hkey : (p.heap p.current).table (p.keyOf t) ≠ none :=
          Option.isSome_iff_ne_none.mp hnamed
        rw [if_pos hnamed]
        exact .move _ Point.noConfusion ⟨hinner, opened_of_exact hexact h.fresh hkey⟩ hother
      · have hkey : (p.heap p.current).table (p.keyOf t) = none := by
          simpa [Program.named] using hnamed
        rw [if_neg hnamed]
        exact .move _ Point.noConfusion ⟨hinner, hexact, hkey⟩ hother
  next hpoint =>
    have hother : ∀ d, p.point ≠ .createIn d := fun d h => Point.noConfusion (hpoint.symm.trans h)
    obtain ⟨hin, hexact, hkey⟩ := hgoing
    exact .move _ Point.noConfusion ⟨hin, hexact, h.fresh, hkey⟩ hother
  next d hpoint =>
    obtain ⟨hin, hexact, hlast, hkey⟩ := hgoing
    exact .insert d hpoint hlast hkey ⟨hin, opened_store hexact hlast hkey⟩
  next d hpoint =>
    have hother : ∀ d, p.point ≠ .createIn d := fun d h => Point.noConfusion (hpoint.symm.trans h)
    obtain ⟨hin, hopened⟩ := hgoing
    dsimp only
    by_cases hnamed : p.named (p.keyOf t) = true
    · rw [if_pos hnamed]
      exact .move _ Point.noConfusion ⟨hin, hcurrent hopened hnamed⟩ hother
    · rw [if_neg hnamed]
      exact .move _ Point.noConfusion trivial hother
  next d hpoint =>
    have hother : ∀ d, p.point ≠ .createIn d := fun d h => Point.noConfusion (hpoint.symm.trans h)
    obtain ⟨hin, hopened⟩ := hgoing
    have hhere : (p.heap d).table (p.keyOf t) ≠ none := by
      rw [hopened.here]
      exact Option.some_ne_none _
    dsimp only
    by_cases hport : port = true
    · rw [if_pos hport]
      have hrows : p.rowsIn d (p.keyOf t) ++ [newRow t t.outerPort]
          = fileRow port t (p.rowsIn d (p.keyOf t)) := by rw [fileRow, if_pos hport]
      exact .finish d _ hopened.last (Or.inr ⟨hhere, _, rfl⟩) (hopened.exact_done hin hrows) hother
    · rw [if_neg hport]
      by_cases hrow : hasRow t (p.rowsIn d (p.keyOf t)) = true
      · have hrows : mergeRows t (p.rowsIn d (p.keyOf t))
            = fileRow port t (p.rowsIn d (p.keyOf t)) := by rw [fileRow, if_neg hport]
        rw [if_pos hrow]
        exact .finish d _ hopened.last (Or.inr ⟨hhere, _, rfl⟩) (hopened.exact_done hin hrows)
          hother
      · rw [if_neg hrow]
        exact .move _ Point.noConfusion
          ⟨hin, hopened, by simpa using hport, by simpa using hrow⟩ hother
  next d hpoint =>
    have hother : ∀ d, p.point ≠ .createIn d := fun d h => Point.noConfusion (hpoint.symm.trans h)
    obtain ⟨hin, hopened, hport, hrow⟩ := hgoing
    dsimp only
    by_cases hnamed : p.named (p.keyOf t) = true
    · have hsame := hopened.named_iff.mp hnamed
      rw [hsame] at hrow
      rw [if_pos hnamed]
      exact .move _ Point.noConfusion ⟨hin, hcurrent hopened hnamed, hport, hrow⟩ hother
    · rw [if_neg hnamed]
      exact .move _ Point.noConfusion trivial hother
  next d hpoint =>
    have hother : ∀ d, p.point ≠ .createIn d := fun d h => Point.noConfusion (hpoint.symm.trans h)
    obtain ⟨hin, hopened, hport, hrow⟩ := hgoing
    have hhere : (p.heap d).table (p.keyOf t) ≠ none := by
      rw [hopened.here]
      exact Option.some_ne_none _
    have hrows : p.rowsIn d (p.keyOf t) ++ [newRow t 0]
        = fileRow port t (p.rowsIn d (p.keyOf t)) := by
      rw [fileRow, hport, if_neg (by decide), mergeRows_of_not_hasRow hrow]
    exact .finish d _ hopened.last (Or.inr ⟨hhere, _, rfl⟩) (hopened.exact_done hin hrows) hother
  next d hpoint =>
    have hother : ∀ d, p.point ≠ .createIn d := fun d h => Point.noConfusion (hpoint.symm.trans h)
    have hmove : p.Received port t rest { p with point := .raised d } :=
      .move _ Point.noConfusion trivial hother
    rw [← hpoint] at hmove
    exact hmove

end Receive

/-! ## What holds in every run -/

section Invariant

variable {port : Bool} {p q : Program} {t : Tuple} {rest : List Tuple}

/-- What is said of the record stays when the dictionaries do, and new ones come behind. -/
theorem Program.Going.congr {point : Point} (h : p.Going port t point)
    (hheap : q.heap = p.heap) (hfiled : q.filed = p.filed) (hboxid : q.boxid = p.boxid)
    (hle : p.current ≤ q.current)
    (hnew : q.heap q.current = p.heap p.current ∨ q.heap q.current = Dict.empty) :
    q.Going port t point := by
  have hexact : ∀ d key, p.Exact port d key → q.Exact port d key := by
    intro d key h
    unfold Exact
    rw [hheap, hfiled]
    exact h
  have hlast : ∀ {d}, p.Last d → q.Last d := fun h =>
    ⟨Nat.le_trans h.le hle, fun d' hd' => by rw [hheap, hfiled]; exact h.later d' hd'⟩
  have hkey : q.keyOf t = p.keyOf t := by rw [keyOf, hboxid, keyOf]
  have hopened : ∀ {d}, p.Opened port d (p.keyOf t) → q.Opened port d (q.keyOf t) := fun h =>
    ⟨hlast h.last, by rw [hkey, hheap, hfiled]; exact h.here,
      fun d' key' hne => hexact d' key' (h.others d' key' (by rwa [hkey] at hne))⟩
  have hrows : ∀ d, q.rowsIn d (q.keyOf t) = p.rowsIn d (p.keyOf t) := fun d => by
    rw [rowsIn, hkey, hheap, rowsIn]
  cases point with
  | start => trivial
  | create =>
    obtain ⟨hin, hall, hnone⟩ := h
    refine ⟨hin, fun d key => hexact d key (hall d key), ?_⟩
    rw [hkey]
    rcases hnew with hsame | hempty
    · rw [hsame]
      exact hnone
    · rw [hempty]
      rfl
  | createIn d =>
    obtain ⟨hin, hall, hl, hnone⟩ := h
    exact ⟨hin, fun d key => hexact d key (hall d key), hlast hl, by rw [hkey, hheap]; exact hnone⟩
  | fetch d => exact ⟨h.1, hopened h.2⟩
  | file d => exact ⟨h.1, hopened h.2⟩
  | refetch d => exact ⟨h.1, hopened h.2.1, h.2.2.1, by rw [hrows]; exact h.2.2.2⟩
  | append d => exact ⟨h.1, hopened h.2.1, h.2.2.1, by rw [hrows]; exact h.2.2.2⟩
  | raised d => trivial

/-- A step of the receiving thread takes no key away, and leaves the rest of the program. -/
theorem Program.Received.frame (h : p.Received port t rest q) :
    q.current = p.current ∧ q.stat = p.stat ∧ q.keyboard = p.keyboard ∧ q.taken = p.taken ∧
      (∀ d key, (p.heap d).table key ≠ none → (q.heap d).table key ≠ none) ∧
      ∀ d, (p.heap d).keys.length ≤ (q.heap d).keys.length := by
  have hstore : ∀ (d : Nat) (key : Key) (rows : List Row),
      (∀ d' key', (p.heap d').table key' ≠ none →
        (Function.update p.heap d ((p.heap d).store key rows) d').table key' ≠ none) ∧
      ∀ d', (p.heap d').keys.length
        ≤ (Function.update p.heap d ((p.heap d).store key rows) d').keys.length := by
    intro d key rows
    refine ⟨fun d' key' hkey => ?_, fun d' => ?_⟩
    · by_cases hd : d' = d
      · rw [hd] at hkey ⊢
        rw [Function.update_self]
        exact Dict.table_store_ne_none _ rows hkey
      · rwa [Function.update_of_ne hd]
    · by_cases hd : d' = d
      · rw [hd, Function.update_self]
        exact Dict.length_keys_store_le _ key rows
      · rw [Function.update_of_ne hd]
  cases h with
  | finish d heap last written exact other =>
    rcases written with rfl | ⟨-, rows, rfl⟩
    · exact ⟨rfl, rfl, rfl, rfl, fun _ _ hkey => hkey, fun _ => Nat.le_refl _⟩
    · exact ⟨rfl, rfl, rfl, rfl, (hstore d _ rows).1, (hstore d _ rows).2⟩
  | insert d point last missing going =>
    exact ⟨rfl, rfl, rfl, rfl, (hstore d _ []).1, (hstore d _ []).2⟩
  | move point busy going other =>
    exact ⟨rfl, rfl, rfl, rfl, fun _ _ hkey => hkey, fun _ => Nat.le_refl _⟩

theorem Program.Reading.congr (h : p.Reading) (hcurrent : q.current = p.current)
    (hkeyboard : q.keyboard = p.keyboard)
    (hkeys : ∀ d key, (p.heap d).table key ≠ none → (q.heap d).table key ≠ none)
    (hlength : ∀ d, (p.heap d).keys.length ≤ (q.heap d).keys.length) : q.Reading := by
  unfold Reading at h ⊢
  rw [hkeyboard, hcurrent]
  split at h
  next => trivial
  next d used pos heq => exact ⟨h.1, Nat.le_trans h.2 (hlength d)⟩
  next left heq => exact fun key hkey => hkeys _ key (h key hkey)
  next => trivial

/-- **One step of the receiving thread.** -/
theorem Program.Inv.receive (h : p.Inv port) (htodo : p.todo = t :: rest) :
    (receive port p t rest).Inv port := by
  have hstep := h.received htodo
  generalize Client.receive port p t rest = q at hstep
  obtain ⟨hcurrent, hstat, hkeyboard, htaken, hkeys, hlength⟩ := hstep.frame
  have hreading : q.Reading := h.reading.congr hcurrent hkeyboard hkeys hlength
  have hstats : ∀ key ∈ q.stat, (q.heap q.current).table key ≠ none := by
    rw [hstat, hcurrent]
    exact fun key hkey => hkeys _ key (h.stat key hkey)
  have hkeyed : ∀ (d : Nat) (key : Key) (rows : List Row) (d' : Nat),
      (Function.update p.heap d ((p.heap d).store key rows) d').Keyed := by
    intro d key rows d'
    by_cases hd : d' = d
    · rw [hd, Function.update_self]
      exact (h.keyed d).store key rows
    · rw [Function.update_of_ne hd]
      exact h.keyed d'
  cases hstep with
  | finish d heap last written exact other =>
    have hlater : ∀ d', d < d' → heap d' = Dict.empty := by
      intro d' hd'
      rcases written with rfl | ⟨-, rows, rfl⟩
      · exact (last.later d' hd').1
      · rw [Function.update_of_ne (Nat.ne_of_gt hd')]
        exact (last.later d' hd').1
    refine ⟨⟨Nat.le_refl _, fun d' hd' => ⟨hlater d' (Nat.lt_of_le_of_lt last.le hd'), ?_⟩⟩,
      fun d' => ?_, ?_, fun _ => rfl, fun _ => exact, fun _ _ _ => trivial, hreading, hstats⟩
    · show Function.update p.filed d _ d' = []
      rw [Function.update_of_ne (Nat.ne_of_gt (Nat.lt_of_le_of_lt last.le hd'))]
      exact (last.later d' (Nat.lt_of_le_of_lt last.le hd')).2
    · show (heap d').Keyed
      rcases written with rfl | ⟨-, rows, rfl⟩
      · exact h.keyed d'
      · exact hkeyed d _ rows d'
    · show p.taken = (List.range (p.current + 1)).flatMap
        (Function.update p.filed d (p.filed d ++ [(p.boxid, t)])) ++ rest.map _
      rw [flatMap_update_last _ (fun d' hd' => (last.later d' hd').2) _
        (Nat.lt_succ_of_le last.le), h.taken, htodo, List.map_cons, List.append_assoc,
        List.singleton_append]
      rfl
  | insert d point last missing going =>
    refine ⟨⟨Nat.le_refl _, fun d' hd' => ?_⟩, fun d' => hkeyed d _ [] d', h.taken, ?_, ?_,
      fun t' rest' htodo' => ?_, hreading, hstats⟩
    · show Function.update p.heap d _ d' = _ ∧ _
      rw [Function.update_of_ne (Nat.ne_of_gt (Nat.lt_of_le_of_lt last.le hd'))]
      exact last.later d' (Nat.lt_of_le_of_lt last.le hd')
    · exact fun hnil => absurd (htodo.symm.trans hnil) (List.cons_ne_nil _ _)
    · exact fun hstart => absurd hstart Point.noConfusion
    · obtain ⟨rfl, -⟩ := List.cons.inj (htodo.symm.trans htodo')
      exact going
  | move point busy going other =>
    refine ⟨⟨Nat.le_refl _, h.fresh.later⟩, h.keyed, h.taken, ?_, fun hstart => absurd hstart busy,
      fun t' rest' htodo' => ?_, hreading, hstats⟩
    · exact fun hnil => absurd (htodo.symm.trans hnil) (List.cons_ne_nil _ _)
    · obtain ⟨rfl, -⟩ := List.cons.inj (htodo.symm.trans htodo')
      exact going.congr rfl rfl rfl (Nat.le_refl _) (Or.inl rfl)

/-- The main thread only reads. -/
theorem Program.Inv.main (h : p.Inv port) {keyboard : Keyboard} {stat : List Key}
    (hreading : ({ p with keyboard, stat } : Program).Reading)
    (hstat : ∀ key ∈ stat, (p.heap p.current).table key ≠ none) :
    ({ p with keyboard, stat } : Program).Inv port where
  fresh := ⟨Nat.le_refl _, h.fresh.later⟩
  keyed := h.keyed
  taken := h.taken
  idle := h.idle
  exact := h.exact
  going := fun t rest htodo =>
    (h.going t rest htodo).congr rfl rfl rfl (Nat.le_refl _) (Or.inl rfl)
  reading := hreading
  stat := hstat

theorem Program.Inv.next (h : p.Inv port) : (next p).Inv port := by
  have hreading := h.reading
  unfold Reading at hreading
  unfold Client.next
  split at hreading
  next hready =>
    rw [hready]
    exact h
  next d used pos hiter =>
    obtain ⟨rfl, hused⟩ := hreading
    rw [hiter]
    dsimp only
    split
    next => exact h.main trivial h.stat
    next =>
      split
      next key hkey =>
        refine h.main ⟨rfl, hused⟩ fun key' hkey' => ?_
        have hmem : key ∈ (p.heap p.current).keys := List.mem_of_getElem? hkey
        by_cases hold : key ∈ p.stat
        · rw [if_pos hold] at hkey'
          exact h.stat key' hkey'
        · rw [if_neg hold] at hkey'
          rcases List.mem_append.mp hkey' with hkey' | hkey'
          · exact h.stat key' hkey'
          · rw [List.mem_singleton.mp hkey']
            exact (h.keyed _ key).mp hmem
      next => exact h.main h.stat h.stat
  next left hprint =>
    rw [hprint]
    cases left with
    | nil => exact h.main trivial h.stat
    | cons key left =>
      have hnamed : p.named key = true :=
        Option.isSome_iff_ne_none.mpr (hreading key List.mem_cons_self)
      dsimp only
      rw [if_pos hnamed]
      exact h.main (fun key' hkey' => hreading key' (List.mem_cons_of_mem _ hkey')) h.stat
  next hraised =>
    rw [hraised]
    exact h

theorem Program.Inv.clear (h : p.Inv port) (hready : p.keyboard = .ready) :
    ({ p with current := p.current + 1, stat := [] } : Program).Inv port where
  fresh := ⟨Nat.le_refl _, fun d' hd' => h.fresh.later d' (Nat.lt_of_succ_lt hd')⟩
  keyed := h.keyed
  taken := by
    show p.taken = (List.range (p.current + 1 + 1)).flatMap p.filed ++ _
    rw [List.range_succ, List.flatMap_append, List.flatMap_singleton,
      (h.fresh.later _ (Nat.lt_succ_self _)).2, List.append_nil]
    exact h.taken
  idle := h.idle
  exact := h.exact
  going := fun t rest htodo => (h.going t rest htodo).congr rfl rfl rfl (Nat.le_succ _)
    (Or.inr (h.fresh.later _ (Nat.lt_succ_self _)).1)
  reading := by simp only [Reading, hready]
  stat := fun key hkey => absurd hkey List.not_mem_nil

/-- **One step of either thread.** -/
theorem Program.Inv.step (h : p.Inv port) (e : ThreadEvent) : (threadStep port p e).Inv port := by
  cases e with
  | message boxid ts =>
    by_cases htodo : p.todo = []
    · have hstart := h.idle htodo
      rw [threadStep, if_pos htodo]
      exact
        { fresh := ⟨Nat.le_refl _, h.fresh.later⟩
          keyed := h.keyed
          taken := by
            show p.taken ++ _ = _
            rw [h.taken, htodo, List.map_nil, List.append_nil]
          idle := fun _ => hstart
          exact := h.exact
          going := fun t rest _ => by
            show Going port _ t p.point
            rw [hstart]
            trivial
          reading := h.reading
          stat := h.stat }
    · rw [threadStep, if_neg htodo]
      exact h
  | receive =>
    rw [threadStep]
    split
    next => exact h
    next t rest htodo => exact h.receive htodo
  | clear =>
    by_cases hready : p.keyboard = .ready
    · rw [threadStep, if_pos hready]
      exact h.clear hready
    · rw [threadStep, if_neg hready]
      exact h
  | print =>
    by_cases hready : p.keyboard = .ready
    · rw [threadStep, if_pos hready]
      exact h.main ⟨rfl, Nat.le_refl _⟩ h.stat
    · rw [threadStep, if_neg hready]
      exact h
  | next => exact h.next

theorem inv_threadStart (port : Bool) : threadStart.Inv port where
  fresh := ⟨Nat.le_refl _, fun _ _ => ⟨rfl, rfl⟩⟩
  keyed := fun _ => Dict.keyed_empty
  taken := rfl
  idle := fun _ => rfl
  exact := fun _ _ _ => rfl
  going := fun _ _ htodo => absurd htodo.symm (List.cons_ne_nil _ _)
  reading := trivial
  stat := fun _ hkey => absurd hkey List.not_mem_nil

theorem inv_run (port : Bool) (es : List ThreadEvent) :
    (run (threadStep port) threadStart es).Inv port :=
  run_invariant (fun _ e h => h.step e) es (inv_threadStart port)

end Invariant

/-! ## When a thread dies -/

/-- The dictionary that the name has to lead to again, if there is one. -/
def Program.needsAt (port : Bool) (p : Program) (t : Tuple) : Point → Option Nat
  | .createIn d | .fetch d | .refetch d => some d
  | .file d => if port = false ∧ hasRow t (p.rowsIn d (p.keyOf t)) = false then some d else none
  | _ => none

/-- The same for the record in hand. -/
def Program.needs (port : Bool) (p : Program) : Option Nat :=
  p.todo.head?.bind fun t => p.needsAt port t p.point

/-- The receiving thread has raised, or will. -/
def Program.Doomed (port : Bool) (p : Program) : Prop :=
  (∃ seen, p.point = .raised seen) ∨ ∃ d, p.needs port = some d ∧ d ≠ p.current

/-- The main thread has raised, or will. -/
def Program.Broken (p : Program) : Prop :=
  match p.keyboard with
  | .ready | .printing _ => False
  | .iterating d used _ => (p.heap d).keys.length ≠ used
  | .raised => True

/-- The next step of the receiving thread puts a key into the dictionary that the main thread
goes over. -/
def Program.Inserts (p : Program) : Prop :=
  ∃ d used pos, p.point = .createIn d ∧ p.keyboard = .iterating d used pos

section Deaths

variable {port : Bool} {p q : Program} {t : Tuple} {rest : List Tuple} {d : Nat}

theorem Program.needs_of_todo (htodo : p.todo = t :: rest) :
    p.needs port = p.needsAt port t p.point := by
  rw [needs, htodo]
  rfl

theorem Program.needs_of_start (hstart : p.point = .start) : p.needs port = none := by
  rw [needs, hstart]
  cases p.todo <;> rfl

theorem Program.doomed_iff (htodo : p.todo = t :: rest) : p.Doomed port ↔
    (∃ seen, p.point = .raised seen) ∨ ∃ d, p.needsAt port t p.point = some d ∧ d ≠ p.current := by
  rw [Doomed, needs_of_todo htodo]

theorem Program.not_doomed_of_start (hstart : p.point = .start) : ¬ p.Doomed port := by
  rintro (⟨seen, hraised⟩ | ⟨d, hneeds, -⟩)
  · exact absurd (hstart.symm.trans hraised) Point.noConfusion
  · rw [needs_of_start hstart] at hneeds
    cases hneeds

/-- What is needed is there. -/
theorem Program.Inv.needs_le (h : p.Inv port) {d : Nat} (hneeds : p.needs port = some d) :
    d ≤ p.current := by
  cases htodo : p.todo with
  | nil =>
    rw [needs, htodo] at hneeds
    cases hneeds
  | cons t rest =>
    have hgoing := h.going t rest htodo
    rw [needs_of_todo htodo] at hneeds
    cases hpoint : p.point with
    | createIn d' =>
      rw [hpoint] at hgoing hneeds
      cases hneeds
      exact hgoing.2.2.1.le
    | fetch d' =>
      rw [hpoint] at hgoing hneeds
      cases hneeds
      exact hgoing.2.last.le
    | refetch d' =>
      rw [hpoint] at hgoing hneeds
      cases hneeds
      exact hgoing.2.1.last.le
    | file d' =>
      rw [hpoint] at hgoing hneeds
      have hsome := Option.ite_none_right_eq_some.mp hneeds
      cases hsome.2
      exact hgoing.2.last.le
    | start | create | append | raised =>
      rw [hpoint] at hneeds
      cases hneeds

/-- The receiving thread alone does not change what becomes of it. -/
theorem Program.Inv.doomed_receive (h : p.Inv port) (htodo : p.todo = t :: rest) :
    (Client.receive port p t rest).Doomed port ↔ p.Doomed port := by
  have hgoing := h.going t rest htodo
  -- a record that is done with
  have hdone : ∀ (q : Program) (d : Nat), ¬ (q.done d t rest).Doomed port :=
    fun _ _ => not_doomed_of_start rfl
  have hmove : ∀ point : Point, ({ p with point } : Program).Doomed port ↔
      (∃ seen, point = .raised seen) ∨ ∃ d, p.needsAt port t point = some d ∧ d ≠ p.current := by
    intro point
    rw [doomed_iff (p := { p with point }) htodo]
    cases point <;> rfl
  -- the name is looked up again
  have hagain : ∀ {d : Nat} {point : Point}, p.Opened port d (p.keyOf t) →
      (∀ seen, point ≠ .raised seen) → (∀ d', p.needsAt port t point = some d' → d' = p.current) →
      (Doomed port (if p.named (p.keyOf t) then { p with point }
        else { p with point := .raised d }) ↔ d ≠ p.current) := by
    intro d point hopened hraised hneeds
    by_cases hnamed : p.named (p.keyOf t) = true
    · rw [if_pos hnamed, hmove]
      refine iff_of_false ?_ (not_not.mpr (hopened.named_iff.mp hnamed))
      rintro (⟨seen, hseen⟩ | ⟨d', hd', hne⟩)
      · exact hraised seen hseen
      · exact hne (hneeds d' hd')
    · rw [if_neg hnamed, hmove]
      exact iff_of_true (Or.inl ⟨d, rfl⟩) fun heq => hnamed (hopened.named_iff.mpr heq)
  rw [doomed_iff htodo]
  unfold Client.receive
  cases hpoint : p.point with
  | start =>
    dsimp only
    refine iff_of_false ?_ (by simp [needsAt])
    split
    next => exact hdone _ _
    next =>
      split
      next => rw [hmove]; simp [needsAt]
      next => rw [hmove]; simp [needsAt]
  | create =>
    dsimp only
    rw [hmove]
    simp [needsAt]
  | createIn d =>
    dsimp only
    rw [doomed_iff (p := { p.store d (p.keyOf t) [] with point := .fetch d }) htodo]
    exact Iff.rfl.trans (by simp [needsAt, store])
  | fetch d =>
    rw [hpoint] at hgoing
    dsimp only
    rw [hagain hgoing.2 (fun _ => Point.noConfusion)]
    · simp [needsAt]
    · intro d' hd'
      exact (Option.some.inj (Option.ite_none_right_eq_some.mp hd').2).symm
  | file d =>
    dsimp only
    by_cases hport : port = true
    · rw [if_pos hport]
      refine iff_of_false (hdone _ _) ?_
      simp [needsAt, hport]
    · rw [if_neg hport]
      by_cases hrow : hasRow t (p.rowsIn d (p.keyOf t)) = true
      · rw [if_pos hrow]
        refine iff_of_false (hdone _ _) ?_
        simp [needsAt, hrow]
      · rw [if_neg hrow, hmove]
        simp [needsAt, hport, hrow]
  | refetch d =>
    rw [hpoint] at hgoing
    dsimp only
    rw [hagain hgoing.2.1 (fun _ => Point.noConfusion)]
    · simp [needsAt]
    · intro d' hd'
      cases hd'
  | append d =>
    exact iff_of_false (hdone _ _) (by simp [needsAt])
  | raised d =>
    exact iff_of_true (Or.inl ⟨d, hpoint⟩) (Or.inl ⟨d, rfl⟩)

/-- A step in which the name does not get a new dictionary when the receiving thread needs the
old one. -/
def Program.Calm (port : Bool) (p : Program) (e : ThreadEvent) : Prop :=
  ¬ (e = .clear ∧ p.keyboard = .ready ∧ p.needs port ≠ none)

/-- A step in which no key comes under the loop of `process`. -/
def Program.Still (p : Program) (e : ThreadEvent) : Prop := ¬ (e = .receive ∧ p.Inserts)

/-- What the main thread does in its loops concerns nobody. -/
theorem next_frame (p : Program) : (next p).heap = p.heap ∧ (next p).current = p.current ∧
    (next p).boxid = p.boxid ∧ (next p).todo = p.todo ∧ (next p).point = p.point := by
  unfold next
  split
  · exact ⟨rfl, rfl, rfl, rfl, rfl⟩
  · split
    · exact ⟨rfl, rfl, rfl, rfl, rfl⟩
    · split <;> exact ⟨rfl, rfl, rfl, rfl, rfl⟩
  · exact ⟨rfl, rfl, rfl, rfl, rfl⟩
  · split <;> exact ⟨rfl, rfl, rfl, rfl, rfl⟩
  · exact ⟨rfl, rfl, rfl, rfl, rfl⟩

theorem Program.needs_congr (hheap : q.heap = p.heap) (hboxid : q.boxid = p.boxid)
    (htodo : q.todo = p.todo) (hpoint : q.point = p.point) : q.needs port = p.needs port := by
  have hrows : ∀ d t, q.rowsIn d (q.keyOf t) = p.rowsIn d (p.keyOf t) := fun d t => by
    rw [rowsIn, keyOf, hheap, hboxid, rowsIn, keyOf]
  have hat : ∀ t point, q.needsAt port t point = p.needsAt port t point := by
    intro t point
    cases point <;> simp only [needsAt, hrows]
  unfold needs
  rw [htodo, hpoint]
  exact congrArg _ (funext fun t => hat t p.point)

/-- **What dooms the receiving thread** is one kind of step. -/
theorem Program.Inv.not_doomed_step (h : p.Inv port) (e : ThreadEvent) :
    ¬ (threadStep port p e).Doomed port ↔ ¬ p.Doomed port ∧ p.Calm port e := by
  have hcalm : e ≠ .clear → p.Calm port e := fun hne hclear => hne hclear.1
  cases e with
  | message boxid ts =>
    rw [and_iff_left (hcalm ThreadEvent.noConfusion)]
    by_cases htodo : p.todo = []
    · have hstart := h.idle htodo
      rw [threadStep, if_pos htodo]
      exact iff_of_true (not_doomed_of_start hstart) (not_doomed_of_start hstart)
    · rw [threadStep, if_neg htodo]
  | receive =>
    rw [and_iff_left (hcalm ThreadEvent.noConfusion), threadStep]
    split
    next => exact Iff.rfl
    next t rest htodo => rw [h.doomed_receive htodo]
  | clear =>
    by_cases hready : p.keyboard = .ready
    · rw [threadStep, if_pos hready]
      have hneeds : ({ p with current := p.current + 1, stat := [] } : Program).needs port
          = p.needs port := needs_congr rfl rfl rfl rfl
      have hcalm' : p.Calm port .clear ↔ p.needs port = none := by simp [Calm, hready]
      rw [hcalm', Doomed, Doomed, hneeds]
      cases hd : p.needs port with
      | none => simp
      | some d =>
        have hne : d ≠ p.current + 1 := by
          have := h.needs_le hd
          omega
        refine iff_of_false (not_not.mpr (Or.inr ⟨d, rfl, hne⟩)) ?_
        exact fun hand => absurd hand.2 (Option.some_ne_none d)
    · have hcalm' : p.Calm port .clear := fun hclear => hready hclear.2.1
      rw [threadStep, if_neg hready, and_iff_left hcalm']
  | print =>
    rw [and_iff_left (hcalm ThreadEvent.noConfusion), threadStep]
    split
    next => exact Iff.rfl
    next => exact Iff.rfl
  | next =>
    obtain ⟨hheap, hcurrent, hboxid, htodo, hpoint⟩ := next_frame p
    rw [and_iff_left (hcalm ThreadEvent.noConfusion)]
    show ¬ (Client.next p).Doomed port ↔ _
    rw [Doomed, Doomed, hpoint, hcurrent, needs_congr hheap hboxid htodo hpoint]

theorem Program.not_broken_of_ready (hkeyboard : p.keyboard = .ready) : ¬ p.Broken := by
  rw [Broken, hkeyboard]
  exact not_false

theorem Program.not_broken_of_printing {left : List Key} (hkeyboard : p.keyboard = .printing left) :
    ¬ p.Broken := by
  rw [Broken, hkeyboard]
  exact not_false

theorem Program.broken_of_raised (hkeyboard : p.keyboard = .raised) : p.Broken := by
  rw [Broken, hkeyboard]
  trivial

theorem Program.broken_iff_of_iterating {used pos : Nat}
    (hkeyboard : p.keyboard = .iterating d used pos) :
    p.Broken ↔ (p.heap d).keys.length ≠ used := by
  rw [Broken, hkeyboard]

theorem Program.broken_congr (hkeyboard : q.keyboard = p.keyboard)
    (hlength : ∀ d, (q.heap d).keys.length = (p.heap d).keys.length) : q.Broken ↔ p.Broken := by
  unfold Broken
  rw [hkeyboard]
  cases p.keyboard with
  | iterating d used pos =>
    dsimp only
    rw [hlength]
  | ready | printing | raised => exact Iff.rfl

/-- The receiving thread breaks the loop only by putting a key into its dictionary. -/
theorem Program.Inv.not_broken_receive (h : p.Inv port) (htodo : p.todo = t :: rest) :
    ¬ (Client.receive port p t rest).Broken ↔ ¬ p.Broken ∧ ¬ p.Inserts := by
  have hstep := h.received htodo
  generalize Client.receive port p t rest = q at hstep
  cases hstep with
  | finish d heap last written exact other =>
    have hno : ¬ p.Inserts := fun ⟨d', _, _, hpoint, _⟩ => other d' hpoint
    rw [and_iff_left hno]
    refine not_congr (broken_congr rfl fun d' => ?_)
    show (heap d').keys.length = _
    rcases written with rfl | ⟨hhere, rows, rfl⟩
    · rfl
    · by_cases hd : d' = d
      · rw [hd, Function.update_self, Dict.keys_store_of_ne_none _ _ hhere]
      · rw [Function.update_of_ne hd]
  | insert d point last missing going =>
    have hreading := h.reading
    have hkeys : ∀ d', ((Function.update p.heap d ((p.heap d).store (p.keyOf t) [])) d').keys.length
        = if d' = d then (p.heap d).keys.length + 1 else (p.heap d').keys.length := by
      intro d'
      by_cases hd : d' = d
      · rw [hd, Function.update_self, Dict.keys_store_of_none _ _ missing, List.length_append,
          if_pos rfl]
        rfl
      · rw [Function.update_of_ne hd, if_neg hd]
    have hinserts : ∀ d', (∃ used pos, p.keyboard = .iterating d' used pos) →
        (p.Inserts ↔ d' = d) := by
      intro d' hiter
      obtain ⟨used, pos, hkeyboard⟩ := hiter
      rw [Inserts, point, hkeyboard]
      simp [eq_comm]
    cases hkeyboard : p.keyboard with
    | ready =>
      have hno : ¬ p.Inserts := fun ⟨_, _, _, _, hiter⟩ =>
        Keyboard.noConfusion (hkeyboard.symm.trans hiter)
      exact iff_of_true (not_broken_of_ready hkeyboard) ⟨not_broken_of_ready hkeyboard, hno⟩
    | printing left =>
      have hno : ¬ p.Inserts := fun ⟨_, _, _, _, hiter⟩ =>
        Keyboard.noConfusion (hkeyboard.symm.trans hiter)
      exact iff_of_true (not_broken_of_printing hkeyboard) ⟨not_broken_of_printing hkeyboard, hno⟩
    | raised =>
      exact iff_of_false (not_not.mpr (broken_of_raised hkeyboard)) fun hand =>
        hand.1 (broken_of_raised hkeyboard)
    | iterating d' used pos =>
      -- the number of keys at the start is now too low, if it is this dictionary
      unfold Reading at hreading
      rw [hkeyboard] at hreading
      have hused : used ≤ (p.heap d').keys.length := hreading.2
      have hnow : ({ p.store d (p.keyOf t) [] with point := .fetch d } : Program).Broken ↔
          (if d' = d then (p.heap d).keys.length + 1 else (p.heap d').keys.length) ≠ used := by
        rw [← hkeys d']
        exact broken_iff_of_iterating hkeyboard
      rw [hnow, hinserts d' ⟨used, pos, hkeyboard⟩, broken_iff_of_iterating hkeyboard]
      by_cases hd : d' = d
      · rw [hd] at hused ⊢
        rw [if_pos rfl]
        omega
      · rw [if_neg hd, and_iff_left hd]
  | move point busy going other =>
    have hno : ¬ p.Inserts := fun ⟨d', _, _, hpoint, _⟩ => other d' hpoint
    rw [and_iff_left hno]
    exact not_congr (broken_congr rfl fun _ => rfl)

/-- **What breaks the loop of the main thread** is one kind of step. -/
theorem Program.Inv.not_broken_step (h : p.Inv port) (e : ThreadEvent) :
    ¬ (threadStep port p e).Broken ↔ ¬ p.Broken ∧ p.Still e := by
  have hstill : e ≠ .receive → p.Still e := fun hne hrec => hne hrec.1
  cases e with
  | message boxid ts =>
    rw [and_iff_left (hstill ThreadEvent.noConfusion), threadStep]
    split
    next => exact not_congr (broken_congr rfl fun _ => rfl)
    next => exact Iff.rfl
  | receive =>
    rw [threadStep]
    split
    next hnil =>
      have hno : ¬ p.Inserts := fun ⟨d, _, _, hpoint, _⟩ =>
        Point.noConfusion ((h.idle hnil).symm.trans hpoint)
      exact (and_iff_left fun hrec => hno hrec.2).symm
    next t rest htodo =>
      rw [h.not_broken_receive htodo, Still]
      simp
  | clear =>
    rw [and_iff_left (hstill ThreadEvent.noConfusion), threadStep]
    split
    next => exact not_congr (broken_congr rfl fun _ => rfl)
    next => exact Iff.rfl
  | print =>
    rw [and_iff_left (hstill ThreadEvent.noConfusion)]
    by_cases hkeyboard : p.keyboard = .ready
    · rw [threadStep, if_pos hkeyboard]
      exact iff_of_true (not_not.mpr rfl) (not_broken_of_ready hkeyboard)
    · rw [threadStep, if_neg hkeyboard]
  | next =>
    rw [and_iff_left (hstill ThreadEvent.noConfusion)]
    show ¬ (Client.next p).Broken ↔ _
    have hreading := h.reading
    unfold Reading at hreading
    unfold Client.next
    cases hkeyboard : p.keyboard with
    | ready => exact Iff.rfl
    | iterating d used pos =>
      rw [broken_iff_of_iterating hkeyboard]
      dsimp only
      by_cases hused : (p.heap d).keys.length = used
      · -- the loop goes on over the same keys, or it is done
        rw [if_neg (not_not.mpr hused)]
        refine iff_of_true ?_ (not_not.mpr hused)
        split
        next => exact not_not.mpr hused
        next => exact not_false
      · rw [if_pos hused]
        exact iff_of_false (not_not.mpr trivial) (not_not.mpr hused)
    | printing left =>
      rw [hkeyboard] at hreading
      cases left with
      | nil => exact iff_of_true not_false (not_broken_of_printing hkeyboard)
      | cons key left =>
        have hnamed : p.named key = true :=
          Option.isSome_iff_ne_none.mpr (hreading key List.mem_cons_self)
        dsimp only
        rw [if_pos hnamed]
        exact iff_of_true not_false (not_broken_of_printing hkeyboard)
    | raised => exact Iff.rfl

/-- A record whose dictionary has lost the name raises where the name is looked up. -/
theorem Program.Inv.raised_of_lookup (h : p.Inv port) (htodo : p.todo = t :: rest)
    (hpoint : p.point = .fetch d ∨ p.point = .refetch d) (hne : d ≠ p.current) :
    (threadStep port p .receive).point = .raised d := by
  have hgoing := h.going t rest htodo
  rw [threadStep, htodo]
  dsimp only
  unfold Client.receive
  rcases hpoint with hpoint | hpoint
  · rw [hpoint] at hgoing ⊢
    have hlost : ¬ p.named (p.keyOf t) = true := fun hnamed => hne (hgoing.2.named_iff.mp hnamed)
    dsimp only
    rw [if_neg hlost]
  · rw [hpoint] at hgoing ⊢
    have hlost : ¬ p.named (p.keyOf t) = true :=
      fun hnamed => hne (hgoing.2.1.named_iff.mp hnamed)
    dsimp only
    rw [if_neg hlost]

/-- The receiving thread raises exactly if it is doomed. -/
theorem Program.Inv.raises_iff (h : p.Inv port) :
    (∃ n seen, (run (threadStep port) p (List.replicate n .receive)).point = .raised seen)
      ↔ p.Doomed port := by
  have hback : ∀ q : Program, q.Inv port →
      ((threadStep port q .receive).Doomed port ↔ q.Doomed port) := by
    intro q hq
    have hcalm : q.Calm port .receive := fun hclear => ThreadEvent.noConfusion hclear.1
    have hstep := hq.not_doomed_step .receive
    rw [and_iff_left hcalm] at hstep
    exact not_iff_not.mp hstep
  constructor
  · rintro ⟨n, seen, hraised⟩
    have hkept := run_replicate_iff (fun q (hq : Program.Inv port q) => hq.step .receive) hback n h
    exact hkept.mp (Or.inl ⟨seen, hraised⟩)
  · rintro (⟨seen, hraised⟩ | ⟨d, hneeds, hne⟩)
    · exact ⟨0, seen, hraised⟩
    cases htodo : p.todo with
    | nil =>
      rw [needs, htodo] at hneeds
      cases hneeds
    | cons t rest =>
      rw [needs_of_todo htodo] at hneeds
      -- one step further, the name is looked up
      have hsecond : (threadStep port p .receive).todo = t :: rest →
          (threadStep port p .receive).current = p.current →
          ((threadStep port p .receive).point = .fetch d ∨
            (threadStep port p .receive).point = .refetch d) →
          ∃ n seen, (run (threadStep port) p (List.replicate n .receive)).point = .raised seen :=
        fun htodo' hcurrent hpoint =>
          ⟨2, d, (h.step .receive).raised_of_lookup htodo' hpoint (by rwa [hcurrent])⟩
      cases hpoint : p.point with
      | createIn d' =>
        rw [hpoint] at hneeds
        cases hneeds
        have hnext : threadStep port p .receive
            = { p.store d (p.keyOf t) [] with point := .fetch d } := by
          simp [threadStep, htodo, Client.receive, hpoint]
        rw [hnext] at hsecond
        exact hsecond htodo rfl (Or.inl rfl)
      | fetch d' =>
        rw [hpoint] at hneeds
        cases hneeds
        exact ⟨1, d, h.raised_of_lookup htodo (Or.inl hpoint) hne⟩
      | refetch d' =>
        rw [hpoint] at hneeds
        cases hneeds
        exact ⟨1, d, h.raised_of_lookup htodo (Or.inr hpoint) hne⟩
      | file d' =>
        rw [hpoint] at hneeds
        obtain ⟨⟨hport, hrow⟩, hd⟩ := Option.ite_none_right_eq_some.mp hneeds
        cases hd
        have hnext : threadStep port p .receive = { p with point := .refetch d } := by
          simp [threadStep, htodo, Client.receive, hpoint, hport, hrow]
        rw [hnext] at hsecond
        exact hsecond htodo rfl (Or.inr rfl)
      | start | create | append | raised =>
        rw [hpoint] at hneeds
        cases hneeds

/-- The main thread raises exactly if its loop is broken. -/
theorem Program.Inv.loop_raises_iff (h : p.Inv port) :
    (∃ n, (run (threadStep port) p (List.replicate n .next)).keyboard = .raised)
      ↔ p.Broken := by
  have hback : ∀ q : Program, q.Inv port → ((threadStep port q .next).Broken ↔ q.Broken) := by
    intro q hq
    have hstill : q.Still .next := fun hrec => ThreadEvent.noConfusion hrec.1
    have hstep := hq.not_broken_step .next
    rw [and_iff_left hstill] at hstep
    exact not_iff_not.mp hstep
  constructor
  · intro hex
    obtain ⟨n, hraised⟩ := hex
    have hkept := run_replicate_iff (fun q (hq : Program.Inv port q) => hq.step .next) hback n h
    exact hkept.mp (broken_of_raised hraised)
  · intro hbroken
    cases hkeyboard : p.keyboard with
    | ready => exact absurd hbroken (not_broken_of_ready hkeyboard)
    | printing left => exact absurd hbroken (not_broken_of_printing hkeyboard)
    | raised => exact ⟨0, hkeyboard⟩
    | iterating d used pos =>
      refine ⟨1, ?_⟩
      show (Client.next p).keyboard = .raised
      unfold Client.next
      rw [hkeyboard]
      dsimp only
      rw [if_pos ((broken_iff_of_iterating hkeyboard).mp hbroken)]

end Deaths

/-! ## Main results -/

/-- **When the threads survive.** After a run the receiving thread does not raise, however far
it goes on, exactly if no command gave the name a new dictionary while a later use needed the
key of the record in hand, which an earlier one had seen or was putting there. And the main
thread does not exactly if no new key was put into the dictionary while it went over it. -/
theorem threads_survive_iff (port : Bool) (es : List ThreadEvent) :
    ((∀ n seen, (run (threadStep port) threadStart (es ++ List.replicate n .receive)).point
        ≠ .raised seen)
      ↔ Along (threadStep port) (Program.Calm port) threadStart es)
    ∧ ((∀ n, (run (threadStep port) threadStart (es ++ List.replicate n .next)).keyboard
        ≠ .raised)
      ↔ Along (threadStep port) Program.Still threadStart es) := by
  have hrun := inv_run port es
  have hinv := inv_threadStart port
  have hstep : ∀ p e, Program.Inv port p → Program.Inv port (threadStep port p e) :=
    fun _ e h => h.step e
  constructor
  · have hstart : ¬ threadStart.Doomed port := Program.not_doomed_of_start rfl
    have hiff : ¬ (run (threadStep port) threadStart es).Doomed port ↔ ¬ threadStart.Doomed port
        ∧ Along (threadStep port) (Program.Calm port) threadStart es :=
      run_iff_along (P := fun p => ¬ p.Doomed port) hstep (fun _ e h => h.not_doomed_step e) hinv
    rw [and_iff_right hstart] at hiff
    rw [← hiff, ← hrun.raises_iff]
    simp only [run_append, not_exists, ne_eq]
  · have hstart : ¬ threadStart.Broken := not_false
    have hiff : ¬ (run (threadStep port) threadStart es).Broken ↔ ¬ threadStart.Broken
        ∧ Along (threadStep port) Program.Still threadStart es :=
      run_iff_along (P := fun p => ¬ p.Broken) hstep (fun _ e h => h.not_broken_step e) hinv
    rw [and_iff_right hstart] at hiff
    rw [← hiff, ← hrun.loop_raises_iff]
    simp only [run_append, not_exists, ne_eq]

-- a request when the dictionary for the new key is in hand
example : (run (threadStep true) threadStart [.message 1 [⟨0, 80, 0x010010AC, 0, 6, 1, 1, 0, 0⟩],
    .receive, .receive, .clear, .receive, .receive]).point = .raised 0 := by decide

-- a request between the test and the entry of the key
example : (run (threadStep true) threadStart [.message 1 [⟨0, 80, 0x010010AC, 0, 6, 1, 1, 0, 0⟩],
    .receive, .clear, .receive, .receive, .receive, .receive]).todo = [] := by decide

-- a new key while the main thread goes over the dictionary
example : (run (threadStep true) threadStart [.message 1 [⟨0, 80, 0x010010AC, 0, 6, 1, 1, 0, 0⟩],
    .receive, .receive, .print, .receive, .next]).keyboard = .raised := by decide

/-- **Every record is filed once.** The records so far are those filed in the dictionaries, one
dictionary after the other and each in order, and those still to do. Between two records each
dictionary is as if its own had been saved with nothing else going on. -/
theorem filed_once (port : Bool) (es : List ThreadEvent) :
    let p := run (threadStep port) threadStart es
    p.taken = (List.range (p.current + 1)).flatMap p.filed ++ p.todo.map (fun t => (p.boxid, t))
    ∧ (p.point = .start → ∀ d, (p.heap d).table = savePairs port (p.filed d) emptyTable) := by
  intro p
  have hrun : p.Inv port := inv_run port es
  exact ⟨hrun.taken, fun hstart d => funext fun key => hrun.exact hstart d key⟩

end Dotqoo.Client
