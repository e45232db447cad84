import Dotqoo.Lib.Ring
import Dotqoo.Lib.Runs
import Dotqoo.Table.Refine
import Dotqoo.Resolver.NsHash

/-!
# `resolver.c`: the cache of names and the queue to the workers

`resolve` looks an address up in `ns_hash`; one that is not there is entered with
its numeric text and queued for two workers, which put a name in its place. The
mutex makes three sections indivisible, and they are the steps here: the one of
`resolve`, `popQueue` and `storeResult` of a worker. The fourth, `copy`, is what
`resolve` does behind its unlock, with a pointer into the cache.

Mirroring notes:
- `dnsresolution` is on; otherwise `resolve` does nothing.
- `do_resolve` runs without the lock. What it returns is part of the event.
- Strings are allocated and released, and `xfree` makes a read of the string give
  `none`; the storage of `raddr` is not followed.
- A worker is free to pop whenever the queue has an address, which covers signals
  that arrive late or never.
- One thread calls `resolve`, so a call begins when the last one has returned.
- The program as it stands calls neither `resolver_initialise` nor `resolve`: both calls, in
  `iftop.c` and `ui_common.c`, are commented out. What is said here is of the module, for
  whoever calls it.
-/

namespace Dotqoo.Resolver

open Dotqoo.Lib Dotqoo.Table

/-- The text of an address or a host. -/
abbrev Name := List Char

/-- `RESOLVE_QUEUE_LENGTH`. -/
def resolveQueueLength : Nat := 20

/-- `resolve` between its unlock and its return. -/
structure Call where
  addr : Address
  hostname : Nat
  /-- `buflen`, if `result` is not NULL. -/
  result : Option Int

/-- A text will be copied into `result`. -/
def Call.copies (c : Call) : Bool := c.result.any (1 < ·)

/-- The globals of the resolver, its strings, and the locals of its threads. -/
structure State where
  nsHash : HashType nsHash Nat
  strings : Nat → Option Name
  brk : Nat
  resolveQueue : RingBuffer AddrStorage
  /-- `addr` of a worker whose `do_resolve` is running. -/
  worker : Fin 2 → Option AddrStorage
  call : Option Call

/-- `resolver_initialise`. -/
def resolverInitialise : State where
  nsHash := hashInitialise nsHash Nat
  strings := fun _ => none
  brk := 0
  resolveQueue := ⟨fun _ => ⟨0, 0, ⟨0, 0, 0, 0⟩⟩, 0, 0⟩
  worker := fun _ => none
  call := none

/-- A string on the heap. -/
def State.alloc (s : State) (text : Name) : State :=
  { s with strings := Function.update s.strings s.brk (some text), brk := s.brk + 1 }

/-- `xfree`. -/
def State.free (s : State) (p : Nat) : State :=
  { s with strings := Function.update s.strings p none }

/-- `hash_insert(ns_hash, addr, p)`. -/
def State.insert (s : State) (addr : AddrStorage) (p : Nat) : State :=
  { s with nsHash := hashInsert s.nsHash addr.in6 p }

variable (inetNtop : UInt32 → In6Addr → Name)

/-- The addresses that stay numerical. -/
def Address.staysNumerical : Address → Bool
  | .inet _ => false
  | .inet6 addr => isLinkLocal addr || isSiteLocal addr

/-- The text that `inet_ntop` writes for an address. -/
def numeric (a : Address) : Name := inetNtop a.storage.af a.storage.addr

/-- The locked section of `resolve`: the state, `hostname` and `added`. -/
def resolve (s : State) (a : Address) : State × Nat × Bool :=
  match hashFind s.nsHash a.key with
  | some hostname => (s, hostname, false)
  | none =>
    let hostname := s.brk
    let s := (s.alloc (numeric inetNtop a)).insert a.storage hostname
    if s.resolveQueue.Full resolveQueueLength then (s, hostname, false)
    else if a.staysNumerical then (s, hostname, false)
    else
      ({ s with resolveQueue := s.resolveQueue.push resolveQueueLength a.storage }, hostname, true)

/-- A worker takes the address at the tail. -/
def popQueue (s : State) (w : Fin 2) : State :=
  if s.worker w = none ∧ s.resolveQueue.head ≠ s.resolveQueue.tail then
    { s with
      worker := Function.update s.worker w (some (s.resolveQueue.slot s.resolveQueue.tail))
      resolveQueue := s.resolveQueue.pop resolveQueueLength }
  else s

/-- A worker stores what `do_resolve` returned for its address. -/
def storeResult (s : State) (w : Fin 2) (hostname : Option Name) : State :=
  match s.worker w with
  | none => s
  | some addr =>
    let s := { s with worker := Function.update s.worker w none }
    match hostname with
    | none => s
    | some text =>
      let hostname := s.brk
      let s := s.alloc text
      match hashFind s.nsHash addr.in6 with
      | some old =>
        ({ s with nsHash := (hashDelete s.nsHash addr.in6).2 }.free old).insert addr hostname
      | none => s.insert addr hostname

/-! ## What a section does -/

section Sections

variable {s : State}

/-- The state of `resolve` with a new address in the cache. -/
def State.enter (s : State) (a : Address) : State :=
  (s.alloc (numeric inetNtop a)).insert a.storage s.brk

theorem resolve_found {a : Address} {p : Nat} (h : hashFind s.nsHash a.key = some p) :
    resolve inetNtop s a = (s, p, false) := by
  rw [resolve, h]

theorem resolve_new_kept {a : Address} (h : hashFind s.nsHash a.key = none)
    (hkept : s.resolveQueue.Full resolveQueueLength ∨ a.staysNumerical = true) :
    resolve inetNtop s a = (s.enter inetNtop a, s.brk, false) := by
  rw [resolve, h]
  rcases hkept with hfull | hnum
  · exact if_pos hfull
  · by_cases hfull : s.resolveQueue.Full resolveQueueLength
    · exact if_pos hfull
    · exact (if_neg hfull).trans (if_pos hnum)

theorem resolve_new_queued {a : Address} (h : hashFind s.nsHash a.key = none)
    (hfull : ¬ s.resolveQueue.Full resolveQueueLength) (hnum : a.staysNumerical = false) :
    resolve inetNtop s a =
      ({ s.enter inetNtop a with
          resolveQueue := s.resolveQueue.push resolveQueueLength a.storage }, s.brk, true) := by
  rw [resolve, h]
  exact (if_neg hfull).trans (if_neg (by simp [hnum]))

theorem hashFind_enter (s : State) (a : Address) (k : In6Addr) :
    hashFind (s.enter inetNtop a).nsHash k =
      if k = a.key then some s.brk else hashFind s.nsHash k :=
  hashFind_hashInsert s.nsHash a.key k s.brk

/-- What a name in the place of another one changes. -/
structure Stored (s s' : State) (w : Fin 2) (addr : AddrStorage) (text : Name) : Prop where
  queue : s'.resolveQueue = s.resolveQueue
  worker : s'.worker = Function.update s.worker w none
  call : s'.call = s.call
  brk : s'.brk = s.brk + 1
  find : ∀ k, hashFind s'.nsHash k = if k = addr.in6 then some s.brk else hashFind s.nsHash k
  new : hashFind s.nsHash addr.in6 ≠ some s.brk → s'.strings s.brk = some text
  kept : ∀ p ≠ s.brk, hashFind s.nsHash addr.in6 ≠ some p → s'.strings p = s.strings p

theorem storeResult_stored {w : Fin 2} {addr : AddrStorage} (h : s.worker w = some addr)
    (text : Name) : Stored s (storeResult s w (some text)) w addr text := by
  simp only [storeResult, h]
  cases hold : hashFind s.nsHash addr.in6 with
  | none =>
    simp only [State.alloc, hold]
    refine ⟨rfl, rfl, rfl, rfl, fun k => hashFind_hashInsert s.nsHash addr.in6 k s.brk, fun _ => ?_,
      fun p hp _ => ?_⟩
    · exact Function.update_self ..
    · exact Function.update_of_ne hp ..
  | some old =>
    simp only [State.alloc, hold]
    refine ⟨rfl, rfl, rfl, rfl, fun k => ?_, fun hne => ?_, fun p hp hne => ?_⟩
    · refine (hashFind_hashInsert (hashDelete s.nsHash addr.in6).2 addr.in6 k s.brk).trans ?_
      split
      next => rfl
      next hk => exact hashFind_hashDelete_of_ne s.nsHash hk
    · have hbrk : s.brk ≠ old := fun heq => hne (heq ▸ hold)
      show Function.update (Function.update s.strings s.brk _) old none s.brk = _
      rw [Function.update_of_ne hbrk, Function.update_self]
    · have hpold : p ≠ old := fun heq => hne (heq ▸ hold)
      show Function.update (Function.update s.strings s.brk _) old none p = _
      rw [Function.update_of_ne hpold, Function.update_of_ne hp]

end Sections

/-! ## Runs -/

/-- An answer of `resolve`: the address, `buflen`, and the text in `result`, where
`none` was copied from a string that had been released. -/
structure Answer where
  addr : Address
  buflen : Int
  text : Option Name
  deriving DecidableEq, Repr

/-- A state and what led to it: the addresses that were asked for, queued and popped,
in this order, the names that `do_resolve` returned, and the answers. -/
structure History where
  st : State
  asked : List Address
  queued : List AddrStorage
  popped : List AddrStorage
  names : List (AddrStorage × Name)
  answers : List Answer

/-- One step of a thread. -/
inductive Event where
  | resolve (a : Address) (result : Option Int)
  | copy
  | pop (w : Fin 2)
  | store (w : Fin 2) (hostname : Option Name)
  deriving Repr

/-- The start of every run. -/
def initial : History := ⟨resolverInitialise, [], [], [], [], []⟩

/-- `resolve` behind its unlock: `strncpy` into `result`, and the return. -/
def copy (h : History) (c : Call) : History :=
  let h := { h with st := { h.st with call := none } }
  match c.result with
  | none => h
  | some buflen =>
    if 1 < buflen then
      { h with answers := h.answers ++
          [⟨c.addr, buflen, (h.st.strings c.hostname).map (·.take (buflen - 1).toNat)⟩] }
    else h

def step (h : History) : Event → History
  | .resolve a result =>
    match h.st.call with
    | some _ => h
    | none =>
      let (s, hostname, added) := resolve inetNtop h.st a
      { h with
        st := { s with call := some ⟨a, hostname, result⟩ }
        asked := h.asked ++ [a]
        queued := if added then h.queued ++ [a.storage] else h.queued }
  | .copy =>
    match h.st.call with
    | none => h
    | some c => copy h c
  | .pop w =>
    let s := popQueue h.st w
    { h with
      st := s
      popped := if h.st.worker w = none then h.popped ++ (s.worker w).toList else h.popped }
  | .store w hostname =>
    { h with
      st := storeResult h.st w hostname
      names := match h.st.worker w, hostname with
        | some addr, some text => h.names ++ [(addr, text)]
        | _, _ => h.names }

/-! ## What a step does -/

section Steps

variable {h : History}

/-- `resolve` finds its address, enters a new one and leaves it at that, or enters it
and queues it. -/
inductive Resolved (h : History) (a : Address) (result : Option Int) : History → Prop
  | found {p : Nat} : hashFind h.st.nsHash a.key = some p →
    Resolved h a result { h with
      st := { h.st with call := some ⟨a, p, result⟩ }
      asked := h.asked ++ [a] }
  | kept : hashFind h.st.nsHash a.key = none →
    h.st.resolveQueue.Full resolveQueueLength ∨ a.staysNumerical = true →
    Resolved h a result { h with
      st := { h.st.enter inetNtop a with call := some ⟨a, h.st.brk, result⟩ }
      asked := h.asked ++ [a] }
  | queued : hashFind h.st.nsHash a.key = none →
    ¬ h.st.resolveQueue.Full resolveQueueLength → a.staysNumerical = false →
    Resolved h a result { h with
      st := { h.st.enter inetNtop a with
        resolveQueue := h.st.resolveQueue.push resolveQueueLength a.storage
        call := some ⟨a, h.st.brk, result⟩ }
      asked := h.asked ++ [a]
      queued := h.queued ++ [a.storage] }

theorem resolved_step (hcall : h.st.call = none) (a : Address) (result : Option Int) :
    Resolved inetNtop h a result (step inetNtop h (.resolve a result)) := by
  cases hfind : hashFind h.st.nsHash a.key with
  | some p =>
    simp only [step, hcall, resolve_found inetNtop hfind]
    exact .found hfind
  | none =>
    by_cases hkept : h.st.resolveQueue.Full resolveQueueLength ∨ a.staysNumerical = true
    · simp only [step, hcall, resolve_new_kept inetNtop hfind hkept]
      exact .kept hfind hkept
    · obtain ⟨hfull, hnum⟩ := not_or.mp hkept
      rw [Bool.not_eq_true] at hnum
      simp only [step, hcall, resolve_new_queued inetNtop hfind hfull hnum]
      exact .queued hfind hfull hnum

/-- The copy ends the call, and may add an answer. -/
theorem copy_eq (c : Call) :
    ∃ answers, copy h c = { h with st := { h.st with call := none }, answers := answers } := by
  unfold copy
  split
  next => exact ⟨_, rfl⟩
  next => split <;> exact ⟨_, rfl⟩

/-- A worker that pops changes nothing but itself and the queue. -/
theorem popQueue_eq (s : State) (w : Fin 2) :
    ∃ worker queue, popQueue s w = { s with worker := worker, resolveQueue := queue } := by
  unfold popQueue
  split <;> exact ⟨_, _, rfl⟩

end Steps

end Dotqoo.Resolver
