import Dotqoo.Lib.Parts
import Dotqoo.Lib.Waiting
import Dotqoo.Resolver.Queue

/-!
# The workers and their condition variable

A worker waits at `resolver_queue_cond` before it looks at the queue, works until the
queue is empty, and waits again. `resolve` signals after its unlock when it has queued an
address. Everything else is as in `step`, of which this is a part (`hist_isPart`): what
was proved of every run there holds here.

A signal is not remembered. If the workers have not come to the condition variable when
the first addresses are queued, nobody hears of them; a worker that comes later waits
without looking. `stranded_iff` says that this is the only way in which an address can be
left behind.

Mirroring notes:
- `pthread_cond_wait` may return without a signal (`spurious`).
- The two threads are started by `resolver_initialise`, and come to their wait at any
  time (`start`).
- `run` is the test of the inner loop, which either pops or goes back to the wait.
-/

namespace Dotqoo.Resolver

open Dotqoo.Lib Dotqoo.Table

/-- The resolver and where its threads are. `signal` is that `resolve` stands between its
unlock and `pthread_cond_signal`. -/
structure Workers where
  hist : History
  phase : Fin 2 → Wait
  signal : Bool

/-- One step of a thread. -/
inductive WorkerEvent where
  | resolve (a : Address) (result : Option Int)
  | signal (who : Fin 2 → Bool)
  | copy
  | start (w : Fin 2)
  | spurious (w : Fin 2)
  | run (w : Fin 2)
  | store (w : Fin 2) (hostname : Option Name)

/-- `head == tail`. -/
def Workers.Empty (s : Workers) : Prop := s.hist.st.resolveQueue.head = s.hist.st.resolveQueue.tail

instance (s : Workers) : Decidable s.Empty := inferInstanceAs (Decidable (_ = _))

/-- What a step is to the cache and the queue. -/
def resolverEvent (s : Workers) : WorkerEvent → Option Event
  | .resolve a result => if s.signal = false then some (.resolve a result) else none
  | .copy => if s.signal = false then some .copy else none
  | .run w => if s.phase w = .awake then some (.pop w) else none
  | .store w hostname => some (.store w hostname)
  | _ => none

variable (inetNtop : UInt32 → In6Addr → Name)

/-- One step. -/
def workerStep (s : Workers) (e : WorkerEvent) : Workers :=
  let s' := { s with hist := run (step inetNtop) s.hist (resolverEvent s e).toList }
  match e with
  | .resolve a _ =>
    if s.signal = false ∧ s.hist.st.call.isNone then
      { s' with signal := (resolve inetNtop s.hist.st a).2.2 }
    else s'
  | .signal who =>
    if s.signal = true ∧ Signals who s.phase then
      { s' with phase := wakeUp who s.phase, signal := false }
    else s'
  | .start w =>
    if s.phase w = .starting then { s' with phase := Function.update s.phase w .waiting } else s'
  | .spurious w => { s' with phase := wakeUp (· = w) s.phase }
  | .run w =>
    if s.phase w = .awake ∧ s.hist.st.worker w = none ∧ s.Empty then
      { s' with phase := Function.update s.phase w .waiting }
    else s'
  | .copy => s'
  | .store _ _ => s'

/-- `resolver_initialise`. -/
def workersStart : Workers := ⟨initial, fun _ => .starting, false⟩

theorem hist_workerStep (s : Workers) (e : WorkerEvent) : (workerStep inetNtop s e).hist
    = run (step inetNtop) s.hist (resolverEvent s e).toList := by
  unfold workerStep
  dsimp only
  cases e <;> first | rfl | (dsimp only; split <;> rfl)

/-- **The cache and the queue** are a part. -/
theorem hist_isPart : IsPart (workerStep inetNtop) (step inetNtop) Workers.hist resolverEvent :=
  hist_workerStep inetNtop

theorem sound_run (es : List WorkerEvent) :
    Sound (run (workerStep inetNtop) workersStart es).hist :=
  (hist_isPart inetNtop).invariant (fun _ e h => h.step inetNtop e) es sound_initial

/-! ## One step -/

section Steps

variable {s : Workers}

/-- `resolve` queues nothing, or one address of which it will tell. -/
theorem resolve_queue (st : State) (a : Address) :
    (resolve inetNtop st a).1.resolveQueue = st.resolveQueue ∨
      (resolve inetNtop st a).2.2 = true := by
  cases hfind : hashFind st.nsHash a.key with
  | some p =>
    rw [resolve_found inetNtop hfind]
    exact Or.inl rfl
  | none =>
    by_cases hkept : st.resolveQueue.Full resolveQueueLength ∨ a.staysNumerical = true
    · rw [resolve_new_kept inetNtop hfind hkept]
      exact Or.inl rfl
    · obtain ⟨hfull, hnum⟩ := not_or.mp hkept
      rw [resolve_new_queued inetNtop hfind hfull (by simpa using hnum)]
      exact Or.inr rfl

theorem storeResult_queue (st : State) (w : Fin 2) (hostname : Option Name) :
    (storeResult st w hostname).resolveQueue = st.resolveQueue := by
  cases hw : st.worker w with
  | none => simp [storeResult, hw]
  | some addr =>
    cases hostname with
    | none => simp [storeResult, hw]
    | some text => exact (storeResult_stored hw text).queue

/-- A step that is not one of `resolve` or of a worker at the queue leaves the queue. -/
theorem step_queue (h : History) {e : Event} (he : e = .copy ∨ ∃ w hostname, e = .store w hostname) :
    (step inetNtop h e).st.resolveQueue = h.st.resolveQueue ∧
      (step inetNtop h e).popped = h.popped := by
  rcases he with rfl | ⟨w, hostname, rfl⟩
  · cases hc : h.st.call with
    | none => simp [step, hc]
    | some c =>
      obtain ⟨answers, hcopy⟩ := copy_eq (h := h) c
      simp [step, hc, hcopy]
  · exact ⟨storeResult_queue h.st w hostname, rfl⟩

/-- Nothing has changed that a worker waits for. -/
structure SameQueue (s s' : Workers) : Prop where
  queue : s'.hist.st.resolveQueue = s.hist.st.resolveQueue
  popped : s'.hist.popped = s.hist.popped

/-- **What a step does.** -/
inductive Stepped (s : Workers) : Workers → Prop
  /-- Nothing that matters here. -/
  | same {s'} : SameQueue s s' → s'.phase = s.phase → s'.signal = s.signal → Stepped s s'
  /-- An address has been queued. -/
  | queued {s'} : s'.phase = s.phase → s'.signal = true → s'.hist.popped = s.hist.popped →
    Stepped s s'
  /-- A signal. -/
  | signalled {s'} (who) : s.signal = true → Signals who s.phase → SameQueue s s' →
    s'.phase = wakeUp who s.phase → s'.signal = false → Stepped s s'
  /-- A worker has come to its wait. -/
  | started {s'} (w) : s.phase w = .starting → SameQueue s s' →
    s'.phase = Function.update s.phase w .waiting → s'.signal = s.signal → Stepped s s'
  | woken {s'} (w) : SameQueue s s' → s'.phase = wakeUp (· = w) s.phase → s'.signal = s.signal →
    Stepped s s'
  /-- A worker has popped an address. -/
  | popped {s'} (w) : s.phase w = .awake → s'.phase = s.phase → s'.signal = s.signal → Stepped s s'
  /-- A worker has found the queue empty. -/
  | back {s'} (w) : s.phase w = .awake → s.Empty → SameQueue s s' →
    s'.phase = Function.update s.phase w .waiting → s'.signal = s.signal → Stepped s s'

theorem stepped (s : Workers) (e : WorkerEvent) : Stepped s (workerStep inetNtop s e) := by
  cases e with
  | resolve a result =>
    by_cases hpre : s.signal = false ∧ s.hist.st.call.isNone
    · obtain ⟨hsig, hcall⟩ := hpre
      rw [Option.isNone_iff_eq_none] at hcall
      have heq : workerStep inetNtop s (.resolve a result) = { s with
          hist := step inetNtop s.hist (.resolve a result)
          signal := (resolve inetNtop s.hist.st a).2.2 } := by
        simp [workerStep, resolverEvent, hsig, hcall]
      have hhist : (step inetNtop s.hist (.resolve a result)).st.resolveQueue
            = (resolve inetNtop s.hist.st a).1.resolveQueue ∧
          (step inetNtop s.hist (.resolve a result)).popped = s.hist.popped := by
        simp [step, hcall]
      rw [heq]
      cases hadded : (resolve inetNtop s.hist.st a).2.2 with
      | true => exact .queued rfl rfl hhist.2
      | false =>
        have hsame := (resolve_queue inetNtop s.hist.st a).resolve_right (by simp [hadded])
        exact .same ⟨hhist.1.trans hsame, hhist.2⟩ rfl hsig.symm
    · have hhist : run (step inetNtop) s.hist (resolverEvent s (.resolve a result)).toList
          = s.hist := by
        cases hsig : s.signal with
        | true => simp [resolverEvent, hsig]
        | false =>
          cases hcall : s.hist.st.call with
          | none => exact absurd ⟨hsig, by simp [hcall]⟩ hpre
          | some c => simp [resolverEvent, hsig, step, hcall]
      rw [workerStep]
      dsimp only
      rw [if_neg hpre, hhist]
      exact .same ⟨rfl, rfl⟩ rfl rfl
  | signal who =>
    by_cases hpre : s.signal = true ∧ Signals who s.phase
    · rw [workerStep]
      dsimp only
      rw [if_pos hpre]
      exact .signalled who hpre.1 hpre.2 ⟨rfl, rfl⟩ rfl rfl
    · rw [workerStep]
      dsimp only
      rw [if_neg hpre]
      exact .same ⟨rfl, rfl⟩ rfl rfl
  | copy =>
    cases hsig : s.signal with
    | true =>
      refine .same ⟨?_, ?_⟩ rfl rfl <;> simp [workerStep, resolverEvent, hsig]
    | false =>
      obtain ⟨hqueue, hpopped⟩ := step_queue inetNtop s.hist (e := .copy) (Or.inl rfl)
      refine .same ⟨?_, ?_⟩ rfl rfl
      · simpa [workerStep, resolverEvent, hsig] using hqueue
      · simpa [workerStep, resolverEvent, hsig] using hpopped
  | start w =>
    by_cases hpre : s.phase w = .starting
    · rw [workerStep]
      dsimp only
      rw [if_pos hpre]
      exact .started w hpre ⟨rfl, rfl⟩ rfl rfl
    · rw [workerStep]
      dsimp only
      rw [if_neg hpre]
      exact .same ⟨rfl, rfl⟩ rfl rfl
  | spurious w => exact .woken w ⟨rfl, rfl⟩ rfl rfl
  | store w hostname =>
    obtain ⟨hqueue, hpopped⟩ := step_queue inetNtop s.hist (e := .store w hostname)
      (Or.inr ⟨w, hostname, rfl⟩)
    exact .same ⟨hqueue, hpopped⟩ rfl rfl
  | run w =>
    by_cases hawake : s.phase w = .awake
    · by_cases hpre : s.phase w = .awake ∧ s.hist.st.worker w = none ∧ s.Empty
      · have hpop : step inetNtop s.hist (.pop w) = s.hist := by
          have hsame : popQueue s.hist.st w = s.hist.st := if_neg fun h => h.2 hpre.2.2
          simp [step, hsame, hpre.2.1]
        rw [workerStep]
        dsimp only
        rw [if_pos hpre]
        refine .back w hawake hpre.2.2 ⟨?_, ?_⟩ rfl rfl <;>
          simp [resolverEvent, hawake, hpop]
      · rw [workerStep]
        dsimp only
        rw [if_neg hpre]
        exact .popped w hawake rfl rfl
    · refine .same ⟨?_, ?_⟩ ?_ ?_ <;> simp [workerStep, resolverEvent, hawake]

end Steps

/-! ## Addresses that nobody hears of -/

/-- Addresses are queued, nobody is at work, and nobody will be told. -/
def Workers.Stranded (s : Workers) : Prop :=
  ¬ s.Empty ∧ s.signal = false ∧ ∀ w, s.phase w ≠ .awake

/-- A worker has come to its wait, and whoever is queued is being seen to. -/
def Workers.Served (s : Workers) : Prop :=
  (∃ w, s.phase w ≠ .starting) ∧ (¬ s.Empty → s.signal = true ∨ ∃ w, s.phase w = .awake)

section Waits

variable {s s' : Workers}

theorem SameQueue.empty_iff (h : SameQueue s s') : s'.Empty ↔ s.Empty := by
  rw [Workers.Empty, Workers.Empty, h.queue]

theorem Workers.Served.of_awake (h : ∃ w, s.phase w = .awake) : s.Served := by
  obtain ⟨w, hw⟩ := h
  exact ⟨⟨w, by simp [hw]⟩, fun _ => Or.inr ⟨w, hw⟩⟩

/-- **Once a worker has come, every signal is heard.** -/
theorem Workers.Served.step (h : s.Served) (hstep : Stepped s s') : s'.Served := by
  obtain ⟨⟨w₀, hcome⟩, hserved⟩ := h
  cases hstep with
  | same hsame hphase hsignal =>
    refine ⟨⟨w₀, hphase ▸ hcome⟩, fun hne => ?_⟩
    rw [hsignal, hphase]
    exact hserved fun hempty => hne (hsame.empty_iff.mpr hempty)
  | queued hphase hsignal _ => exact ⟨⟨w₀, hphase ▸ hcome⟩, fun _ => Or.inl hsignal⟩
  | signalled who _ hsignals _ hphase _ =>
    refine ⟨⟨w₀, fun h => hcome ?_⟩, fun _ => Or.inr ?_⟩
    · rw [hphase] at h
      exact wakeUp_starting_iff.mp h
    · rw [hphase]
      exact exists_awake_of_signals hsignals ⟨w₀, hcome⟩
  | started w hstart hsame hphase hsignal =>
    refine ⟨⟨w, by simp [hphase]⟩, fun hne => ?_⟩
    rw [hsignal]
    refine (hserved fun hempty => hne (hsame.empty_iff.mpr hempty)).imp_right ?_
    rintro ⟨w', hw'⟩
    have hother : w' ≠ w := fun heq => by
      rw [heq, hstart] at hw'
      cases hw'
    exact ⟨w', by rw [hphase, Function.update_of_ne hother, hw']⟩
  | woken w hsame hphase hsignal =>
    refine ⟨⟨w₀, fun h => hcome ?_⟩, fun hne => ?_⟩
    · rw [hphase] at h
      exact wakeUp_starting_iff.mp h
    · rw [hsignal]
      refine (hserved fun hempty => hne (hsame.empty_iff.mpr hempty)).imp_right ?_
      rintro ⟨w', hw'⟩
      exact ⟨w', by rw [hphase]; exact wakeUp_awake hw'⟩
  | popped w hawake hphase _ =>
    exact .of_awake ⟨w, by rw [hphase, hawake]⟩
  | back w _ hempty hsame hphase _ =>
    exact ⟨⟨w, by simp [hphase]⟩, fun hne => absurd (hsame.empty_iff.mpr hempty) hne⟩

theorem Workers.Served.not_stranded (h : s.Served) : ¬ s.Stranded := by
  rintro ⟨hne, hsignal, hnone⟩
  rcases h.2 hne with htell | ⟨w, hw⟩
  · rw [hsignal] at htell
    cases htell
  · exact hnone w hw

/-- Where addresses are stranded nobody has ever been awake. -/
theorem Workers.Stranded.throughout : ∀ (es : List WorkerEvent) {s : Workers},
    (run (workerStep inetNtop) s es).Stranded →
    Throughout (workerStep inetNtop) (fun s => ∀ w, s.phase w ≠ .awake) s es
  | [], _, h => h.2.2
  | e :: es, s, h => by
    refine ⟨fun w hw => ?_, Workers.Stranded.throughout es h⟩
    have hserved : (run (workerStep inetNtop) (workerStep inetNtop s e) es).Served :=
      run_invariant (I := Workers.Served) (fun s e h => h.step (stepped inetNtop s e)) es
        ((Workers.Served.of_awake ⟨w, hw⟩).step (stepped inetNtop s e))
    exact hserved.not_stranded h

/-- Nothing is popped before somebody comes. -/
theorem popped_or_served (es : List WorkerEvent) :
    (run (workerStep inetNtop) workersStart es).hist.popped = [] ∨
      (run (workerStep inetNtop) workersStart es).Served := by
  refine run_invariant (I := fun s : Workers => s.hist.popped = [] ∨ s.Served) (fun s e h => ?_) es
    (Or.inl rfl)
  have hstep := stepped inetNtop s e
  rcases h with hnil | hserved
  · cases hstep with
    | same hsame _ _ => exact Or.inl (hsame.popped.trans hnil)
    | queued _ _ hpopped => exact Or.inl (hpopped.trans hnil)
    | signalled _ _ _ hsame _ _ => exact Or.inl (hsame.popped.trans hnil)
    | started _ _ hsame _ _ => exact Or.inl (hsame.popped.trans hnil)
    | woken _ hsame _ _ => exact Or.inl (hsame.popped.trans hnil)
    | popped w hawake hphase _ => exact Or.inr (.of_awake ⟨w, by rw [hphase, hawake]⟩)
    | back _ _ _ hsame _ _ => exact Or.inl (hsame.popped.trans hnil)
  · exact Or.inr (hserved.step hstep)

/-! ## What the workers do by themselves -/

/-- A step of a worker that no one has to cause. -/
def WorkerEvent.Own : WorkerEvent → Prop
  | .start _ | .run _ | .store _ _ => True
  | _ => False

/-- Stranded addresses stay. -/
theorem Workers.Stranded.own (h : s.Stranded) {e : WorkerEvent} (he : e.Own) :
    (workerStep inetNtop s e).Stranded := by
  obtain ⟨hne, hsignal, hnone⟩ := h
  cases e with
  | start w =>
    rw [workerStep]
    dsimp only
    split
    next =>
      refine ⟨hne, hsignal, fun w' => ?_⟩
      by_cases hw : w' = w
      · simp [hw]
      · show Function.update s.phase w .waiting w' ≠ .awake
        rw [Function.update_of_ne hw]
        exact hnone w'
    next => exact ⟨hne, hsignal, hnone⟩
  | run w =>
    rw [workerStep]
    dsimp only
    rw [if_neg fun h => hnone w h.1, resolverEvent, if_neg (hnone w)]
    exact ⟨hne, hsignal, hnone⟩
  | store w hostname =>
    refine ⟨fun hempty => hne ?_, hsignal, hnone⟩
    have hqueue := storeResult_queue s.hist.st w hostname
    have hempty' : (storeResult s.hist.st w hostname).resolveQueue.head
        = (storeResult s.hist.st w hostname).resolveQueue.tail := hempty
    rw [hqueue] at hempty'
    exact hempty'
  | resolve a result => exact absurd he id
  | signal who => exact absurd he id
  | copy => exact absurd he id
  | spurious w => exact absurd he id

/-- **A worker that is awake** can empty the queue alone. -/
theorem drain {w : Fin 2} : ∀ (addrs : List AddrStorage) {s : Workers}, Sound s.hist →
    s.phase w = .awake → s.hist.waiting = addrs →
    ∃ es : List WorkerEvent, (∀ e ∈ es, e.Own) ∧ (run (workerStep inetNtop) s es).Empty
  | [], s, hs, _, hwaiting =>
    ⟨[], fun _ h => absurd h List.not_mem_nil, hs.range.contents_eq_nil_iff.mp hwaiting⟩
  | addr :: addrs, s, hs, hawake, hwaiting => by
    have hqueue : (storeResult s.hist.st w none).resolveQueue = s.hist.st.resolveQueue :=
      storeResult_queue s.hist.st w none
    have hidle : (storeResult s.hist.st w none).worker w = none := by
      cases hw : s.hist.st.worker w <;> simp [storeResult, hw]
    have hne : s.hist.st.resolveQueue.head ≠ s.hist.st.resolveQueue.tail := by
      intro hempty
      rw [History.waiting, hs.range.contents_eq_nil_iff.mpr hempty] at hwaiting
      cases hwaiting
    -- the name that it works for comes back, and it takes the next address
    have hstore : workerStep inetNtop s (.store w none)
        = { s with hist := step inetNtop s.hist (.store w none) } := rfl
    have hrun : workerStep inetNtop (workerStep inetNtop s (.store w none)) (.run w)
        = { s with hist := step inetNtop (step inetNtop s.hist (.store w none)) (.pop w) } := by
      rw [hstore, workerStep]
      dsimp only
      rw [if_neg, resolverEvent, if_pos hawake]
      · rfl
      · rintro ⟨-, -, hempty⟩
        have hempty' : (storeResult s.hist.st w none).resolveQueue.head
            = (storeResult s.hist.st w none).resolveQueue.tail := hempty
        rw [hqueue] at hempty'
        exact hne hempty'
    have hrest : (step inetNtop (step inetNtop s.hist (.store w none)) (.pop w)).waiting
        = addrs := by
      have hpop : popQueue (storeResult s.hist.st w none) w = { storeResult s.hist.st w none with
          worker := Function.update (storeResult s.hist.st w none).worker w (some
            ((storeResult s.hist.st w none).resolveQueue.slot
              (storeResult s.hist.st w none).resolveQueue.tail))
          resolveQueue := (storeResult s.hist.st w none).resolveQueue.pop resolveQueueLength } :=
        if_pos ⟨hidle, by rw [hqueue]; exact hne⟩
      show RingBuffer.contents resolveQueueLength
        (popQueue (storeResult s.hist.st w none) w).resolveQueue = addrs
      rw [hpop]
      dsimp only
      rw [hqueue]
      rw [History.waiting, hs.range.contents_pop hne] at hwaiting
      exact List.tail_eq_of_cons_eq hwaiting
    obtain ⟨es, hown, hempty⟩ := drain addrs
      (s := { s with hist := step inetNtop (step inetNtop s.hist (.store w none)) (.pop w) })
      ((hs.step inetNtop (.store w none)).step inetNtop (.pop w)) hawake hrest
    refine ⟨.store w none :: .run w :: es, fun e he => ?_, ?_⟩
    · rcases List.mem_cons.mp he with rfl | he
      · exact trivial
      · rcases List.mem_cons.mp he with rfl | he
        · exact trivial
        · exact hown e he
    · rw [run_cons, run_cons, hrun]
      exact hempty

end Waits

/-- **Addresses are left behind only by signals that came too early.** In every run, with
signals to any workers and wakeups without one: addresses are stranded exactly if some
are queued, none is still to be told of, and no worker has been awake at any moment of the
run. Then every address that was ever queued waits. And where no signal is to come, the
workers can empty the queue by themselves exactly if nothing is stranded. -/
theorem stranded_iff (es : List WorkerEvent) :
    ((run (workerStep inetNtop) workersStart es).Stranded ↔
      ¬ (run (workerStep inetNtop) workersStart es).Empty ∧
      (run (workerStep inetNtop) workersStart es).signal = false ∧
      Throughout (workerStep inetNtop) (fun s => ∀ w, s.phase w ≠ .awake) workersStart es) ∧
    ((run (workerStep inetNtop) workersStart es).Stranded →
      (run (workerStep inetNtop) workersStart es).hist.waiting
        = (run (workerStep inetNtop) workersStart es).hist.queued) ∧
    ((run (workerStep inetNtop) workersStart es).signal = false →
      ((∃ own : List WorkerEvent, (∀ e ∈ own, e.Own) ∧
          (run (workerStep inetNtop) workersStart (es ++ own)).Empty) ↔
        ¬ (run (workerStep inetNtop) workersStart es).Stranded)) := by
  refine ⟨⟨fun h => ⟨h.1, h.2.1, h.throughout inetNtop es⟩, fun h => ⟨h.1, h.2.1, h.2.2.last⟩⟩,
    fun h => ?_, fun hsignal => ⟨?_, fun h => ?_⟩⟩
  · have hnil := (popped_or_served inetNtop es).resolve_right fun hserved => hserved.not_stranded h
    have hfifo := (sound_run inetNtop es).fifo
    rw [hnil, List.nil_append] at hfifo
    exact hfifo.symm
  · rintro ⟨own, hown, hempty⟩ hstranded
    have hstill : ∀ (own : List WorkerEvent) (s : Workers), (∀ e ∈ own, e.Own) → s.Stranded →
        (run (workerStep inetNtop) s own).Stranded := by
      intro own
      induction own with
      | nil => exact fun _ _ h => h
      | cons e own ih =>
        intro s hown h
        exact ih _ (fun e' he' => hown e' (List.mem_cons_of_mem _ he'))
          (h.own inetNtop (hown e List.mem_cons_self))
    rw [run_append] at hempty
    exact (hstill own _ hown hstranded).1 hempty
  · by_cases hempty : (run (workerStep inetNtop) workersStart es).Empty
    · exact ⟨[], fun _ h => absurd h List.not_mem_nil, by rwa [List.append_nil]⟩
    · have hawake : ∃ w, (run (workerStep inetNtop) workersStart es).phase w = .awake := by
        by_contra hnone
        exact h ⟨hempty, hsignal, fun w hw => hnone ⟨w, hw⟩⟩
      obtain ⟨w, hw⟩ := hawake
      obtain ⟨own, hown, hdone⟩ := drain inetNtop _ (sound_run inetNtop es) hw rfl
      exact ⟨own, hown, by rwa [run_append]⟩

/-- An address is queued and told of, and then the workers come. -/
example : (run (workerStep fun _ _ => []) workersStart
    [.resolve (.inet 16777226) none, .signal fun _ => true, .copy, .start 0, .start 1]).Stranded :=
  ⟨by decide, by decide, by decide⟩

end Dotqoo.Resolver
