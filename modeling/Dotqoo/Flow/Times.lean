import Dotqoo.Flow.Approval

/-!
# The times of a record

A record has two times, and they should come in this order: `create_time`, then
`last_update_time`. They are read from the clock in the other order. `t` is read
when `handle_ip_packet` starts; `history_create` reads the clock again, after the
`tick` of the packet, which may have taken its time reconnecting to the broker;
and then `last_update_time` is set to `t`. A record whose creation saw the clock
move on is younger than its last update.

With the duration filter off that is the one kind of record
`is_short_connection` applies to: the difference is negative, so the record is
too short, and is removed when it is two minutes old. `timesOrdered_iff` says
that the two readings of a creating packet are all that matters.
-/

namespace Dotqoo.Capture

open Dotqoo.Table Dotqoo.Lib

/-- No record was updated before it was created. -/
def Ordered (h : History) : Prop := ∀ n ∈ h.nodes, n.record.createTime ≤ n.record.lastUpdateTime

/-- If the event is a packet that creates a record, the clock has not moved on
since its `t` was read. -/
def CreatesPromptly (b : Box) : Event → Prop
  | .packet e iptr hwDir => ∀ f ∈ acceptedFlow b.config e iptr hwDir,
      b.missesKey f.key e.t = true → e.created ≤ e.t
  | _ => True

instance (b : Box) : DecidablePred (CreatesPromptly b)
  | .packet e iptr hwDir =>
    inferInstanceAs (Decidable (∀ f ∈ acceptedFlow b.config e iptr hwDir, _ = true → _))
  | .tick _ _ _ => isTrue trivial
  | .delivered _ => isTrue trivial
  | .connlost _ _ => isTrue trivial

/-- No record counts as short when the event rotates the table. -/
def NoneShort (b : Box) (ev : Event) : Prop :=
  ∀ e send t, ev.tickArgs = some (e, send, t) → b.rotates send t = true →
    ∀ n ∈ b.history.nodes, isShortConnection b.config.options n.record t = false

/-- No record was created after any of the readings. -/
def CreatedBy (h : History) (readings : List Int) : Prop :=
  ∀ n ∈ h.nodes, ∀ r ∈ readings, n.record.createTime ≤ r

/-- A pass keeps the times of what it keeps. -/
theorem Ordered.tickPart (pl : Platform) {b : Box} (h : Ordered b.history) (ev : Event) :
    Ordered (tickPart pl b ev).history := by
  intro n hn
  obtain ⟨d, hd, -, -, hcreate, hlast, -⟩ := mem_tickPart hn
  rw [hcreate, hlast]
  exact h ⟨n.key, d⟩ hd

theorem CreatedBy.tickPart (pl : Platform) {b : Box} {readings : List Int}
    (h : CreatedBy b.history readings) (ev : Event) :
    CreatedBy (tickPart pl b ev).history readings := by
  intro n hn r hr
  obtain ⟨d, hd, -, -, hcreate, -⟩ := mem_tickPart hn
  rw [hcreate]
  exact h ⟨n.key, d⟩ hd r hr

/-- The creation time of the record a packet is accounted to. -/
theorem createTime_recordFor (h : History) (key : AddrPair) (created : Int) :
    (hashFind h.toHashType key = none ∧ (recordFor h key created).createTime = created) ∨
    (⟨key, recordFor h key created⟩ : Node) ∈ h.nodes := by
  cases hf : hashFind h.toHashType key with
  | none =>
    refine Or.inl ⟨rfl, ?_⟩
    rw [recordFor, hf]
    rfl
  | some d =>
    refine Or.inr ?_
    rw [recordFor, hf]
    exact (h.hashFind_eq_some_iff).mp hf

/-- Accounting keeps the times in order, if what it creates is created promptly. -/
theorem Ordered.account {iptr : Packet} {f : Flow} {t created : Int} {b : Box}
    (h : Ordered b.history) (hclock : ∀ n ∈ b.history.nodes, n.record.createTime ≤ t)
    (hprompt : hashFind b.history.toHashType f.key = none → created ≤ t) :
    Ordered (account iptr f t created b).history := by
  intro n hn
  rcases mem_account.mp hn with ⟨hn, -⟩ | rfl
  · exact h n hn
  · show (accountRecord iptr f.key t (recordFor b.history f.key created)).createTime
      ≤ (accountRecord iptr f.key t (recordFor b.history f.key created)).lastUpdateTime
    rw [accountRecord_createTime, accountRecord_lastUpdateTime]
    rcases createTime_recordFor b.history f.key created with ⟨hnone, hcreate⟩ | hmem
    · rw [hcreate]
      exact hprompt hnone
    · exact hclock _ hmem

theorem CreatedBy.account {iptr : Packet} {f : Flow} {t created : Int} {b : Box}
    {readings : List Int} (h : CreatedBy b.history readings)
    (hlater : ∀ r ∈ readings, created ≤ r) :
    CreatedBy (account iptr f t created b).history readings := by
  intro n hn r hr
  rcases mem_account.mp hn with ⟨hn, -⟩ | rfl
  · exact h n hn r hr
  · show (accountRecord iptr f.key t (recordFor b.history f.key created)).createTime ≤ r
    rw [accountRecord_createTime]
    rcases createTime_recordFor b.history f.key created with ⟨-, hcreate⟩ | hmem
    · rw [hcreate]
      exact hlater r hr
    · exact h _ hmem r hr

/-- With ordered times and no duration to last, nothing is short. -/
theorem Ordered.noneShort {b : Box} {ev : Event} (h : Ordered b.history)
    (hdur : b.config.options.duration = 0) : NoneShort b ev := by
  intro e send t _ _ n hn
  have hle := h n hn
  have hnot : ¬ n.record.lastUpdateTime - n.record.createTime < b.config.options.duration := by
    omega
  simp [isShortConnection, hnot]

/-- One event with a prompt creation keeps the times in order. -/
theorem Ordered.step {pl : Platform} {b : Box} {ev : Event} {readings : List Int}
    (h : Ordered b.history) (hby : CreatedBy b.history (ev.readings ++ readings))
    (hord : (ev.readings ++ readings).Pairwise (· ≤ ·)) (hprompt : CreatesPromptly b ev) :
    Ordered (Capture.step pl b ev).history ∧ CreatedBy (Capture.step pl b ev).history readings := by
  have htick := h.tickPart pl ev
  have hby' := hby.tickPart pl ev
  have hrest : CreatedBy (Capture.tickPart pl b ev).history readings :=
    fun n hn r hr => hby' n hn r (List.mem_append_right _ hr)
  cases ev with
  | packet e iptr hwDir =>
    show Ordered (handleIpPacket pl e iptr hwDir b).history
      ∧ CreatedBy (handleIpPacket pl e iptr hwDir b).history readings
    cases ha : acceptedFlow b.config e iptr hwDir with
    | none =>
      rw [handleIpPacket_none ha]
      exact ⟨htick, hrest⟩
    | some f =>
      rw [handleIpPacket_some ha]
      have hclock : ∀ n ∈ (tick pl e.tick false e.t b).history.nodes,
          n.record.createTime ≤ e.t :=
        fun n hn => hby' n hn e.t (by simp [Event.readings])
      refine ⟨Ordered.account htick hclock
        (fun hnone => hprompt f ha ((missesKey_iff pl e.tick e.t b f.key).mpr hnone)),
        CreatedBy.account hrest fun r hr => ?_⟩
      exact List.rel_of_pairwise_cons (List.pairwise_cons.mp hord).2 hr
  | tick e send t => exact ⟨htick, hrest⟩
  | delivered dt => exact ⟨htick, hrest⟩
  | connlost now connected => exact ⟨htick, hrest⟩

/-- A creation that sees the clock move on leaves a record out of order. -/
theorem not_ordered_step {pl : Platform} {b : Box} {ev : Event}
    (hlate : ¬ CreatesPromptly b ev) : ¬ Ordered (Capture.step pl b ev).history := by
  cases ev with
  | packet e iptr hwDir =>
    simp only [CreatesPromptly, not_forall] at hlate
    obtain ⟨f, ha, hmiss, hlt⟩ := hlate
    have hnone := (missesKey_iff pl e.tick e.t b f.key).mp hmiss
    intro ho
    have hmem : (⟨f.key, accountRecord iptr f.key e.t
        (recordFor (tick pl e.tick false e.t b).history f.key e.created)⟩ : Node)
        ∈ (handleIpPacket pl e iptr hwDir b).history.nodes := by
      rw [handleIpPacket_some ha]
      exact mem_account.mpr (Or.inr rfl)
    have hle := ho _ hmem
    simp only [accountRecord_createTime, accountRecord_lastUpdateTime] at hle
    rw [recordFor, hnone] at hle
    exact hlt hle
  | tick e send t => exact absurd trivial hlate
  | delivered dt => exact absurd trivial hlate
  | connlost now connected => exact absurd trivial hlate

/-- The times stay in order, and nothing counts as short, exactly as long as
every creation is prompt. -/
theorem Ordered.run_iff {pl : Platform} {readings : List Int} : ∀ {evs : List Event} {b : Box},
    Ordered b.history → CreatedBy b.history (evs.flatMap Event.readings ++ readings) →
    (evs.flatMap Event.readings ++ readings).Pairwise (· ≤ ·) →
    ((Throughout (Capture.step pl) (fun b => Ordered b.history) b evs
        ∧ (b.config.options.duration = 0 → Along (Capture.step pl) NoneShort b evs))
      ↔ Along (Capture.step pl) CreatesPromptly b evs) := by
  intro evs
  induction evs with
  | nil =>
    intro b h _ _
    exact ⟨fun _ => trivial, fun _ => ⟨h, fun _ => trivial⟩⟩
  | cons ev evs ih =>
    intro b h hby hord
    rw [List.flatMap_cons, List.append_assoc] at hby hord
    rw [Throughout, Along, Along]
    by_cases hprompt : CreatesPromptly b ev
    · obtain ⟨h', hby'⟩ := h.step hby hord hprompt
      have hrest := ih h' hby' (List.pairwise_append.mp hord).2.1
      rw [step_config] at hrest
      constructor
      · intro hall
        exact ⟨hprompt, hrest.mp ⟨hall.1.2, fun hdur => (hall.2 hdur).2⟩⟩
      · intro hall
        obtain ⟨hthrough, hshort⟩ := hrest.mpr hall.2
        exact ⟨⟨h, hthrough⟩, fun hdur => ⟨h.noneShort hdur, hshort hdur⟩⟩
    · refine ⟨fun hall => ?_, fun hall => absurd hall.1 hprompt⟩
      exact absurd hall.1.2.first (not_ordered_step hprompt)

/-- **Record times are ordered exactly if creations are prompt.** For every run
whose clock does not go back: no record is ever younger than its last update,
and with the duration filter off none ever counts as short, if and only if no
creating packet sees the clock move on between its two readings. -/
theorem timesOrdered_iff (pl : Platform) (config : Config)
    (sendLast lastTimestamp connectedAt : Int) (connected : Bool) (evs : List Event)
    (hclock : (evs.flatMap Event.readings).Pairwise (· ≤ ·)) :
    (Throughout (step pl) (fun b => Ordered b.history)
        (boot config sendLast lastTimestamp connectedAt connected) evs
      ∧ (config.options.duration = 0 → Along (step pl) NoneShort
        (boot config sendLast lastTimestamp connectedAt connected) evs))
      ↔ Along (step pl) CreatesPromptly
        (boot config sendLast lastTimestamp connectedAt connected) evs := by
  have hnodes := nodes_boot config sendLast lastTimestamp connectedAt connected
  have hstart : Ordered (boot config sendLast lastTimestamp connectedAt connected).history := by
    intro n hn
    rw [hnodes] at hn
    exact absurd hn List.not_mem_nil
  have hby : CreatedBy (boot config sendLast lastTimestamp connectedAt connected).history
      (evs.flatMap Event.readings ++ []) := by
    intro n hn
    rw [hnodes] at hn
    exact absurd hn List.not_mem_nil
  exact hstart.run_iff hby (by rw [List.append_nil]; exact hclock)

/-- Three packets of one connection, and a pass two minutes later. -/
def promptRun : List Event := [packetAt 10, packetAt 11, packetAt 12, sendAt 140 (some 1)]

theorem timesOrdered_iff_promptRun :
    (Throughout (step lp64) (fun b => Ordered b.history) (boot plainConfig 0 0 0 true) promptRun
      ∧ (plainConfig.options.duration = 0 →
        Along (step lp64) NoneShort (boot plainConfig 0 0 0 true) promptRun))
      ↔ Along (step lp64) CreatesPromptly (boot plainConfig 0 0 0 true) promptRun :=
  timesOrdered_iff lp64 plainConfig 0 0 0 true promptRun (by decide)

/-- A threshold of 100 bytes, so that nothing is approved at once. -/
def slowConfig : Config :=
  { plainConfig with options := { plainConfig.options with threshold := 100 } }

/-- The packet arrives at 10, and its record is created at 11. -/
def slowRun : List Event :=
  [.packet { tick := plainEnv none, t := 10, created := 11, i := 0, wild := false } tcpPacket 1]

/-- The record was updated before it was created; with the duration filter off
it counts as short at 140, and the pass removes it. -/
theorem timesOrdered_fails :
    (slowRun.flatMap Event.readings).Pairwise (· ≤ ·)
      ∧ slowConfig.options.duration = 0
      ∧ ((run (step lp64) (boot slowConfig 0 0 0 true) slowRun).history.nodes.map
          fun n => (n.record.createTime, n.record.lastUpdateTime)) = [(11, 10)]
      ∧ ((run (step lp64) (boot slowConfig 0 0 0 true) slowRun).history.nodes.all
          fun n => isShortConnection slowConfig.options n.record 140) = true
      ∧ (run (step lp64) (boot slowConfig 0 0 0 true)
          (slowRun ++ [sendAt 140 none])).history.nodes.length = 0 := by
  decide +kernel

end Dotqoo.Capture
