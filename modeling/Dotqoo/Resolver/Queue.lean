import Dotqoo.Lib.Bytes
import Dotqoo.Resolver.Resolve

/-!
# Every cached address is resolved or waiting

The queue is a first-in-first-out queue in every run (`Sound`). What the comment in
`resolve` says of an address that is found, "already resolved, or on the queue", is
another matter: an address that comes while the queue is full is entered in the
cache all the same, and found there from then on (`queue_ok_iff`).
-/

namespace Dotqoo.Resolver

open Dotqoo.Lib Dotqoo.Table

/-- The queue as a list. -/
abbrev History.waiting (h : History) : List AddrStorage :=
  h.st.resolveQueue.contents resolveQueueLength

/-- What holds of the queue in every run. -/
structure Sound (h : History) : Prop where
  range : h.st.resolveQueue.InRange resolveQueueLength
  fifo : h.queued = h.popped ++ h.waiting
  once : (h.queued.map AddrStorage.in6).Nodup
  cached : ∀ addr ∈ h.queued, (hashFind h.st.nsHash addr.in6).isSome
  asked : ∀ addr ∈ h.queued, ∃ a ∈ h.asked, addr = a.storage
  busy : ∀ w addr, h.st.worker w = some addr → addr ∈ h.popped

theorem sound_initial : Sound initial := by
  have hrange : initial.st.resolveQueue.InRange resolveQueueLength := ⟨by decide, by decide⟩
  refine ⟨hrange, ?_, List.nodup_nil, by simp [initial], by simp [initial],
    fun w addr h => by cases h⟩
  exact (hrange.contents_eq_nil_iff.mpr rfl).symm

variable (inetNtop : UInt32 → In6Addr → Name) {h : History}

/-- **The queue is full** with one slot of the array left. -/
theorem Sound.full_iff (hs : Sound h) :
    h.st.resolveQueue.Full resolveQueueLength ↔ h.waiting.length = 19 := by
  rw [hs.range.full_iff, History.waiting, RingBuffer.length_contents, resolveQueueLength]
  omega

/-- The worker of an address has popped it, so it is in the cache. -/
theorem Sound.busy_cached (hs : Sound h) {w : Fin 2} {addr : AddrStorage}
    (hw : h.st.worker w = some addr) : (hashFind h.st.nsHash addr.in6).isSome :=
  hs.cached addr (by rw [hs.fifo]; exact List.mem_append_left _ (hs.busy w addr hw))

/-- **Storing a name** leaves the same addresses in the cache. -/
theorem Sound.isSome_storeResult (hs : Sound h) (w : Fin 2) (hostname : Option Name)
    (k : In6Addr) :
    (hashFind (storeResult h.st w hostname).nsHash k).isSome = (hashFind h.st.nsHash k).isSome := by
  cases hw : h.st.worker w with
  | none => simp [storeResult, hw]
  | some addr =>
    cases hostname with
    | none => simp [storeResult, hw]
    | some text =>
      rw [(storeResult_stored hw text).find k]
      split
      next hk => rw [hk, hs.busy_cached hw]; rfl
      next => rfl

theorem worker_of_storeResult {s : State} {w w' : Fin 2} {hostname : Option Name}
    {addr : AddrStorage} (h : (storeResult s w hostname).worker w' = some addr) :
    s.worker w' = some addr := by
  have hidle : ∀ f : Fin 2 → Option AddrStorage,
      Function.update f w none w' = some addr → f w' = some addr := by
    intro f hf
    by_cases hw : w' = w
    · rw [hw, Function.update_self] at hf
      cases hf
    · rwa [Function.update_of_ne hw] at hf
  cases hw : s.worker w with
  | none => simpa [storeResult, hw] using h
  | some addr' =>
    cases hostname with
    | none =>
      simp only [storeResult, hw] at h
      exact hidle _ h
    | some text =>
      rw [(storeResult_stored hw text).worker] at h
      exact hidle _ h

/-- A step that leaves the queue, and no address out of the cache. -/
theorem Sound.frame (hs : Sound h) {h' : History}
    (hqueue : h'.st.resolveQueue = h.st.resolveQueue) (hqueued : h'.queued = h.queued)
    (hpopped : h'.popped = h.popped) (hasked : h.asked ⊆ h'.asked)
    (hcached : ∀ k, (hashFind h.st.nsHash k).isSome → (hashFind h'.st.nsHash k).isSome)
    (hworker : ∀ w addr, h'.st.worker w = some addr → h.st.worker w = some addr) :
    Sound h' where
  range := hqueue ▸ hs.range
  fifo := by rw [hqueued, hpopped, hs.fifo, History.waiting, History.waiting, hqueue]
  once := hqueued ▸ hs.once
  cached := fun addr haddr => hcached _ (hs.cached addr (hqueued ▸ haddr))
  asked := fun addr haddr => by
    obtain ⟨a, ha, heq⟩ := hs.asked addr (hqueued ▸ haddr)
    exact ⟨a, hasked ha, heq⟩
  busy := fun w addr hw => hpopped ▸ hs.busy w addr (hworker w addr hw)

/-- **A worker takes** what was queued first. -/
theorem Sound.pop (hs : Sound h) {w : Fin 2} (hw : h.st.worker w = none)
    (hne : h.st.resolveQueue.head ≠ h.st.resolveQueue.tail) :
    Sound { h with
      st := popQueue h.st w
      popped := h.popped ++ ((popQueue h.st w).worker w).toList } := by
  have hpop : popQueue h.st w = { h.st with
      worker := Function.update h.st.worker w
        (some (h.st.resolveQueue.slot h.st.resolveQueue.tail))
      resolveQueue := h.st.resolveQueue.pop resolveQueueLength } := if_pos ⟨hw, hne⟩
  rw [hpop]
  refine ⟨hs.range.pop, ?_, hs.once, hs.cached, hs.asked, fun w' addr hw' => ?_⟩
  · simp only [Function.update_self, Option.toList_some]
    rw [hs.fifo, History.waiting, hs.range.contents_pop hne, List.append_assoc]
    rfl
  · simp only [Function.update_self, Option.toList_some]
    by_cases hww : w' = w
    · subst hww
      simp only [Function.update_self, Option.some.injEq] at hw'
      exact List.mem_append_right _ (by simp [hw'])
    · simp only [Function.update_of_ne hww] at hw'
      exact List.mem_append_left _ (hs.busy w' addr hw')

/-- **A new address** goes behind those that are waiting. -/
theorem Sound.queue (hs : Sound h) {a : Address} {c : Call}
    (hnew : hashFind h.st.nsHash a.key = none)
    (hfull : ¬ h.st.resolveQueue.Full resolveQueueLength) :
    Sound { h with
      st := { h.st.enter inetNtop a with
        resolveQueue := h.st.resolveQueue.push resolveQueueLength a.storage
        call := some c }
      asked := h.asked ++ [a]
      queued := h.queued ++ [a.storage] } where
  range := hs.range.push _
  fifo := by
    show h.queued ++ [a.storage] = h.popped ++ RingBuffer.contents resolveQueueLength _
    rw [hs.range.contents_push hfull, hs.fifo, List.append_assoc]
  once := by
    show ((h.queued ++ [a.storage]).map AddrStorage.in6).Nodup
    rw [List.map_append, List.nodup_append]
    refine ⟨hs.once, by simp, fun k hk k' hk' heq => ?_⟩
    obtain ⟨addr, haddr, rfl⟩ := List.mem_map.mp hk
    have hcached := hs.cached addr haddr
    rw [heq, List.mem_singleton.mp hk', hnew] at hcached
    cases hcached
  cached := fun addr haddr => by
    show (hashFind (h.st.enter inetNtop a).nsHash addr.in6).isSome
    rw [hashFind_enter]
    split
    next => rfl
    next hk =>
      rcases List.mem_append.mp haddr with haddr | haddr
      · exact hs.cached addr haddr
      · exact absurd (by rw [List.mem_singleton.mp haddr]) hk
  asked := fun addr haddr => by
    rcases List.mem_append.mp haddr with haddr | haddr
    · obtain ⟨b, hb, heq⟩ := hs.asked addr haddr
      exact ⟨b, List.mem_append_left _ hb, heq⟩
    · exact ⟨a, by simp, List.mem_singleton.mp haddr⟩
  busy := hs.busy

/-- **One step** keeps the queue a queue. -/
theorem Sound.step (hs : Sound h) (e : Event) : Sound (step inetNtop h e) := by
  cases e with
  | copy =>
    cases hc : h.st.call with
    | none => simpa [Resolver.step, hc] using hs
    | some c =>
      obtain ⟨answers, hcopy⟩ := copy_eq (h := h) c
      simp only [Resolver.step, hc, hcopy]
      exact hs.frame rfl rfl rfl (fun _ => id) (fun _ => id) fun _ _ => id
  | pop w =>
    by_cases hw : h.st.worker w = none
    · by_cases hne : h.st.resolveQueue.head ≠ h.st.resolveQueue.tail
      · simpa [Resolver.step, hw] using hs.pop hw hne
      · have hpop : popQueue h.st w = h.st := if_neg fun hc => hne hc.2
        simpa [Resolver.step, hpop, hw] using hs
    · have hpop : popQueue h.st w = h.st := if_neg fun hc => hw hc.1
      simpa [Resolver.step, hpop, hw] using hs
  | store w hostname =>
    refine hs.frame ?_ rfl rfl (fun _ => id) (fun k hk => ?_) fun w' addr => worker_of_storeResult
    · show (storeResult h.st w hostname).resolveQueue = _
      cases hw : h.st.worker w with
      | none => simp [storeResult, hw]
      | some addr =>
        cases hostname with
        | none => simp [storeResult, hw]
        | some text => exact (storeResult_stored hw text).queue
    · show (hashFind (storeResult h.st w hostname).nsHash k).isSome
      rwa [hs.isSome_storeResult]
  | resolve a result =>
    cases hc : h.st.call with
    | some c => simpa [Resolver.step, hc] using hs
    | none =>
      have hstep := resolved_step inetNtop hc a result
      generalize Resolver.step inetNtop h (.resolve a result) = h' at hstep ⊢
      cases hstep with
      | found => exact hs.frame rfl rfl rfl (List.subset_append_left ..) (fun _ => id) fun _ _ => id
      | kept =>
        refine hs.frame rfl rfl rfl (List.subset_append_left ..) (fun k hk => ?_) fun _ _ => id
        show (hashFind (h.st.enter inetNtop a).nsHash k).isSome
        rw [hashFind_enter]
        split
        next => rfl
        next => exact hk
      | queued hnew hfull => exact hs.queue inetNtop hnew hfull

/-! ## Cached and not queued -/

/-- Every IPv4 address in the cache has been queued. -/
def Covered (h : History) : Prop :=
  ∀ addr : UInt32, (hashFind h.st.nsHash (Address.inet addr).key).isSome →
    (Address.inet addr).storage ∈ h.queued

/-- An IPv4 address that is new comes while the queue has room. -/
def Room (h : History) : Event → Prop
  | .resolve (.inet addr) _ => h.st.call = none →
      hashFind h.st.nsHash (Address.inet addr).key = none →
      ¬ h.st.resolveQueue.Full resolveQueueLength
  | _ => True

/-- Where no address is added to the cache, nothing is missed. -/
theorem Covered.frame (hc : Covered h) {h' : History} (hqueued : h'.queued = h.queued)
    (hcached : ∀ addr : UInt32, (hashFind h'.st.nsHash (Address.inet addr).key).isSome →
      (hashFind h.st.nsHash (Address.inet addr).key).isSome) : Covered h' :=
  fun addr haddr => hqueued ▸ hc addr (hcached addr haddr)

theorem inet_key_injective {a b : UInt32} (h : (Address.inet a).key = (Address.inet b).key) :
    a = b := by
  rcases (key_eq_iff _ _).mp h with heq | ⟨x, y, hx, -⟩
  · exact Address.inet.inj heq
  · cases hx

theorem inet_key_ne_inet6 (addr : UInt32) (addr' : In6Addr) :
    (Address.inet addr).key ≠ (Address.inet6 addr').key := by
  intro h
  rcases (key_eq_iff _ _).mp h with heq | ⟨x, y, hx, -⟩
  · cases heq
  · cases hx

/-- **A call** makes the cache miss an address exactly if it is a new IPv4 one without
room. -/
theorem covered_resolve_iff (hs : Sound h) (hc : Covered h) (hcall : h.st.call = none)
    (a : Address) (result : Option Int) :
    Covered (step inetNtop h (.resolve a result)) ↔ Room h (.resolve a result) := by
  have hkeys : ∀ k, (hashFind (h.st.enter inetNtop a).nsHash k).isSome →
      k = a.key ∨ (hashFind h.st.nsHash k).isSome := by
    intro k hk
    rw [hashFind_enter] at hk
    split at hk
    next heq => exact Or.inl heq
    next => exact Or.inr hk
  have hstep := resolved_step inetNtop hcall a result
  generalize step inetNtop h (.resolve a result) = h' at hstep ⊢
  cases hstep with
  | found hfind =>
    refine ⟨fun _ => ?_, fun _ => hc.frame rfl fun _ => id⟩
    cases a with
    | inet addr => exact fun _ hnone => by simp [hfind] at hnone
    | inet6 addr => exact trivial
  | kept hnew hkept =>
    cases a with
    | inet addr =>
      -- the address is in the cache now, and was not when the queued ones were
      have hfull : h.st.resolveQueue.Full resolveQueueLength :=
        hkept.resolve_right (by simp [Address.staysNumerical])
      refine ⟨fun hc' => ?_, fun hroom => absurd hfull (hroom hcall hnew)⟩
      have hmem : (Address.inet addr).storage ∈ h.queued := hc' addr (by
        show (hashFind (h.st.enter inetNtop (.inet addr)).nsHash _).isSome
        rw [hashFind_enter, if_pos rfl]
        rfl)
      have hcached := hs.cached _ hmem
      rw [show (Address.inet addr).storage.in6 = (Address.inet addr).key from rfl, hnew] at hcached
      cases hcached
    | inet6 addr =>
      refine ⟨fun _ => trivial, fun _ => hc.frame rfl fun addr' haddr' => ?_⟩
      exact (hkeys _ haddr').resolve_left (inet_key_ne_inet6 addr' addr)
  | queued hnew hfull hnum =>
    constructor
    · intro _
      cases a with
      | inet addr => exact fun _ _ => hfull
      | inet6 addr => exact trivial
    · intro _ addr haddr
      rcases hkeys _ haddr with heq | hold
      · cases a with
        | inet addr' => simp [inet_key_injective heq]
        | inet6 addr' => exact absurd heq (inet_key_ne_inet6 addr addr')
      · exact List.mem_append_left _ (hc addr hold)

/-- **One step**: nothing is missed exactly if there is room. -/
theorem covered_step_iff (hs : Sound h) (hc : Covered h) (e : Event) :
    Covered (step inetNtop h e) ↔ Room h e := by
  cases e with
  | copy =>
    refine ⟨fun _ => trivial, fun _ => ?_⟩
    cases hcall : h.st.call with
    | none => simpa [step, hcall] using hc
    | some c =>
      obtain ⟨answers, hcopy⟩ := copy_eq (h := h) c
      simp only [step, hcall, hcopy]
      exact hc.frame rfl fun _ => id
  | pop w =>
    obtain ⟨worker, queue, hpop⟩ := popQueue_eq h.st w
    refine ⟨fun _ => trivial, fun _ => ?_⟩
    simp only [step, hpop]
    exact hc.frame rfl fun _ => id
  | store w hostname =>
    refine ⟨fun _ => trivial, fun _ => hc.frame rfl fun addr haddr => ?_⟩
    exact (hs.isSome_storeResult w hostname _).symm.trans haddr
  | resolve a result =>
    cases hcall : h.st.call with
    | some c =>
      simp only [step, hcall]
      refine ⟨fun _ => ?_, fun _ => hc⟩
      cases a with
      | inet addr => exact fun hnone => by simp [hcall] at hnone
      | inet6 addr => exact trivial
    | none => exact covered_resolve_iff inetNtop hs hc hcall a result

/-- The indices are those of slots, addresses are popped once and as they were queued,
and an IPv4 address in the cache is in the queue or has been popped. -/
structure QueueOk (h : History) : Prop where
  range : h.st.resolveQueue.InRange resolveQueueLength
  fifo : h.queued = h.popped ++ h.waiting
  once : h.queued.Nodup
  covered : ∀ addr : UInt32, (hashFind h.st.nsHash (Address.inet addr).key).isSome →
    (Address.inet addr).storage ∈ h.waiting ∨ (Address.inet addr).storage ∈ h.popped

theorem Sound.queueOk_iff (hs : Sound h) : QueueOk h ↔ Covered h := by
  have hmem : ∀ addr, addr ∈ h.queued ↔ addr ∈ h.waiting ∨ addr ∈ h.popped := by
    intro addr
    rw [hs.fifo, List.mem_append, or_comm]
  constructor
  · exact fun hok addr haddr => (hmem _).mpr (hok.covered addr haddr)
  · exact fun hc => ⟨hs.range, hs.fifo, hs.once.of_map _, fun addr haddr =>
      (hmem _).mp (hc addr haddr)⟩

/-- **Resolved or waiting**: a run keeps every cached IPv4 address so exactly if none
that is new comes while the queue is full. -/
theorem queue_ok_iff (es : List Event) :
    Throughout (step inetNtop) QueueOk initial es ↔ Along (step inetNtop) Room initial es := by
  refine throughout_iff_along_of_invariant (I := Sound) (fun _ e hs => hs.step inetNtop e)
    (fun h e hs hok => ?_) sound_initial ?_
  · rw [(hs.step inetNtop e).queueOk_iff]
    exact covered_step_iff inetNtop hs (hs.queueOk_iff.mp hok) e
  · exact sound_initial.queueOk_iff.mpr fun addr haddr => by cases haddr

/-- 10.0.0.0 to 10.0.0.19 come before the first of them is popped: the last is in the
cache, and neither queued nor popped. -/
theorem twentieth_not_queued :
    ¬ ∀ es, Throughout (step fun _ addr => ['.'].intercalate
      ((leBytes 4 addr.s0.toNat).map fun b => Nat.toDigits 10 b.toNat)) QueueOk initial es := by
  intro h
  have hok := Throughout.last (h ((List.range 20).flatMap fun i =>
    [.resolve (.inet (.ofNat (10 + i * 2 ^ 24))) (some 46), .copy]))
  rcases hok.covered (10 + 19 * 2 ^ 24) (by decide +kernel) with hmem | hmem
  · exact absurd hmem (by decide +kernel)
  · exact absurd hmem (by decide +kernel)

end Dotqoo.Resolver
