import Dotqoo.Flow.Conservation
import Dotqoo.Publish.Moves

/-!
# Approval is sound and permanent

`history_rotate` approves a record that has lasted for `options.duration` and
carried more than `options.threshold` bytes, and it never looks at an approved
record again. So approval should be a fact about the connection that stays true:
the two quantities only grow, as long as the clock does not go back and the
counters do not wrap.

The run lemma follows an approved record through both halves of an event, the
pass (`keeps_tickPart`) and the accounting (`keeps_account`). `ApprovalInv`
collects what is true between events: approved records meet the criteria, and
the messages built so far show records that met them and are in the table
still, each message all the keys of the ones before it.

The criteria are stated for the numbers themselves (`Criteria`), not for their
64-bit representation: the source adds the counters modulo `2 ^ 64` and converts
a `long` threshold, and both errors are on the safe side.
-/

namespace Dotqoo.Capture

open Dotqoo.Table Dotqoo.Lib

/-- The readings of the clock during an event, in order. -/
def Event.readings : Event → List Int
  | .packet e _ _ => [e.t, e.created]
  | .tick _ _ t => [t]
  | .delivered _ => []
  | .connlost now _ => [now]

/-- The counter that an event adds to, if it does, has room for the packet. -/
def NoWrap (pl : Platform) (b : Box) : Event → Prop
  | .packet e iptr hwDir => ∀ f ∈ acceptedFlow b.config e iptr hwDir,
      (if ipSrc iptr = f.key.src
        then (recordFor (tick pl e.tick false e.t b).history f.key e.created).totalSent.toNat
        else (recordFor (tick pl e.tick false e.t b).history f.key e.created).totalRecv.toNat)
          + (ipLen iptr).toNat < 2 ^ 64
  | _ => True

instance (pl : Platform) (b : Box) : DecidablePred (NoWrap pl b)
  | .packet e iptr hwDir =>
    inferInstanceAs (Decidable (∀ f ∈ acceptedFlow b.config e iptr hwDir, _ < 2 ^ 64))
  | .tick _ _ _ => isTrue trivial
  | .delivered _ => isTrue trivial
  | .connlost _ _ => isTrue trivial

/-- The record has lasted and carried enough, as numbers. -/
def Criteria (o : Options) (d : HistoryType) : Prop :=
  o.duration ≤ d.lastUpdateTime - d.createTime
    ∧ o.threshold.toInt < (d.totalRecv.toNat + d.totalSent.toNat : Nat)

/-- `d'` is the approved record `d` at a later time. -/
structure Grown (d d' : HistoryType) : Prop where
  approval : d'.approval = true
  createTime : d'.createTime = d.createTime
  lastUpdateTime : d.lastUpdateTime ≤ d'.lastUpdateTime
  totalSent : d.totalSent.toNat ≤ d'.totalSent.toNat
  totalRecv : d.totalRecv.toNat ≤ d'.totalRecv.toNat

/-- Every approved record of `h` is in `h'`, at a later time. -/
def Keeps (h h' : History) : Prop :=
  ∀ n ∈ h.nodes, n.record.approval = true →
    ∃ d, (⟨n.key, d⟩ : Node) ∈ h'.nodes ∧ Grown n.record d

theorem Grown.refl {d : HistoryType} (h : d.approval = true) : Grown d d :=
  ⟨h, rfl, Int.le_refl _, Nat.le_refl _, Nat.le_refl _⟩

theorem Grown.trans {d d' d'' : HistoryType} (h : Grown d d') (h' : Grown d' d'') :
    Grown d d'' :=
  ⟨h'.approval, h'.createTime.trans h.createTime, Int.le_trans h.lastUpdateTime h'.lastUpdateTime,
    Nat.le_trans h.totalSent h'.totalSent, Nat.le_trans h.totalRecv h'.totalRecv⟩

theorem Keeps.refl (h : History) : Keeps h h :=
  fun n hn ha => ⟨n.record, hn, Grown.refl ha⟩

theorem Keeps.trans {h h' h'' : History} (hk : Keeps h h') (hk' : Keeps h' h'') : Keeps h h'' := by
  intro n hn ha
  obtain ⟨d, hd, hg⟩ := hk n hn ha
  obtain ⟨d', hd', hg'⟩ := hk' ⟨n.key, d⟩ hd hg.approval
  exact ⟨d', hd', hg.trans hg'⟩

/-- The criteria stay met. -/
theorem Criteria.grown {o : Options} {d d' : HistoryType} (h : Criteria o d) (hg : Grown d d') :
    Criteria o d' := by
  obtain ⟨hdur, hthr⟩ := h
  have hc := hg.createTime
  have hl := hg.lastUpdateTime
  have hs := hg.totalSent
  have hr := hg.totalRecv
  refine ⟨by omega, ?_⟩
  omega

/-- The conversion of the threshold does not lower it. -/
theorem toInt_le_toUInt64 (x : Int64) : x.toInt ≤ (x.toUInt64.toNat : Int) := by
  have hcond := BitVec.toInt_eq_toNat_cond x.toBitVec
  have hlt : x.toBitVec.toNat < 2 ^ 64 := x.toBitVec.isLt
  rw [← Int64.toInt_toBitVec, ← Int64.toNat_toBitVec, hcond]
  split <;> omega

/-- The source's test implies the criteria. -/
theorem Criteria.of_meetsCriteria {o : Options} {d : HistoryType}
    (h : meetsCriteria o d = true) : Criteria o d := by
  simp only [meetsCriteria, Bool.and_eq_true, decide_eq_true_eq, gt_iff_lt,
    UInt64.lt_iff_toNat_lt, UInt64.toNat_add] at h
  obtain ⟨hdur, hthr⟩ := h
  have hconv := toInt_le_toUInt64 o.threshold
  have hmod := Nat.mod_le (d.totalRecv.toNat + d.totalSent.toNat) (2 ^ 64)
  refine ⟨hdur, ?_⟩
  omega

/-! ## One event -/

/-- The pass leaves approved records as they are. -/
theorem keeps_tickPart (pl : Platform) (b : Box) (ev : Event) :
    Keeps b.history (tickPart pl b ev).history := by
  rcases tickPart_cases pl b ev with hpart | ⟨e, send, t, hpart⟩
  · rw [hpart]
    exact Keeps.refl _
  · rw [hpart]
    intro n hn ha
    rcases tick_history pl e send t b with ⟨hh, -⟩ | ⟨hh, -⟩
    · rw [hh]
      exact ⟨n.record, hn, Grown.refl ha⟩
    · rw [hh]
      exact ⟨n.record, mem_historyRotate.mpr ⟨n.record, hn, settle_approved ha⟩, Grown.refl ha⟩

/-- An accounted record is at a later time, if the clock has not gone back and
the counter has room. -/
theorem grown_accountRecord {iptr : Packet} {key : AddrPair} {t : Int} {d : HistoryType}
    (ha : d.approval = true) (ht : d.lastUpdateTime ≤ t)
    (hroom : (if ipSrc iptr = key.src then d.totalSent.toNat else d.totalRecv.toNat)
      + (ipLen iptr).toNat < 2 ^ 64) : Grown d (accountRecord iptr key t d) := by
  obtain ⟨hsent, hrecv⟩ := accountRecord_counters iptr key t d
  have hs := d.totalSent.toNat_lt
  have hr := d.totalRecv.toNat_lt
  have happ := accountRecord_approval iptr key t d
  have hcreate := accountRecord_createTime iptr key t d
  have hlast := accountRecord_lastUpdateTime iptr key t d
  by_cases hsrc : ipSrc iptr = key.src
  · rw [if_pos hsrc] at hroom hsent hrecv
    exact ⟨happ.trans ha, hcreate, by omega, by omega, by omega⟩
  · rw [if_neg hsrc] at hroom hsent hrecv
    exact ⟨happ.trans ha, hcreate, by omega, by omega, by omega⟩

theorem keeps_account {iptr : Packet} {f : Flow} {t created : Int} {b : Box}
    (hclock : ∀ n ∈ b.history.nodes, n.record.lastUpdateTime ≤ t)
    (hroom : (if ipSrc iptr = f.key.src then (recordFor b.history f.key created).totalSent.toNat
      else (recordFor b.history f.key created).totalRecv.toNat) + (ipLen iptr).toNat < 2 ^ 64) :
    Keeps b.history (account iptr f t created b).history := by
  intro n hn ha
  by_cases hk : n.key = f.key
  · -- the accounted record is this one
    have hfor : recordFor b.history f.key created = n.record := by
      rw [recordFor, ← hk, (KeyedTable.hashFind_eq_some_iff _).mpr hn]
      rfl
    rw [hfor] at hroom
    refine ⟨accountRecord iptr f.key t n.record, ?_, grown_accountRecord ha (hclock n hn) hroom⟩
    exact mem_account.mpr (Or.inr (by rw [hk, hfor]))
  · exact ⟨n.record, mem_account.mpr (Or.inl ⟨hn, hk⟩), Grown.refl ha⟩

/-- No record has been updated after any of the readings. -/
def UpTo (h : History) (readings : List Int) : Prop :=
  ∀ n ∈ h.nodes, ∀ r ∈ readings, n.record.lastUpdateTime ≤ r

/-- Every approved record meets the criteria. -/
def ApprovedMeet (o : Options) (h : History) : Prop :=
  ∀ n ∈ h.nodes, n.record.approval = true → Criteria o n.record

theorem UpTo.tickPart (pl : Platform) {b : Box} {readings : List Int}
    (h : UpTo b.history readings) (ev : Event) :
    UpTo (tickPart pl b ev).history readings := by
  intro n hn r hr
  obtain ⟨d, hd, -, -, -, hlast, -⟩ := mem_tickPart hn
  rw [hlast]
  exact h ⟨n.key, d⟩ hd r hr

/-- The pass approves what meets the criteria. -/
theorem ApprovedMeet.tickPart (pl : Platform) {b : Box}
    (h : ApprovedMeet b.config.options b.history) (ev : Event) :
    ApprovedMeet b.config.options (tickPart pl b ev).history := by
  intro n hn ha
  obtain ⟨d, hd, hs, hr, hc, hl, happ⟩ := mem_tickPart hn
  have hmeet : Criteria b.config.options d := by
    rcases happ ha with happ | hcrit
    · exact h ⟨n.key, d⟩ hd happ
    · exact Criteria.of_meetsCriteria hcrit
  unfold Criteria at hmeet ⊢
  rw [hs, hr, hc, hl]
  exact hmeet

/-- Accounting sets the time of one record to `t`, which lies before what is
still to be read. -/
theorem UpTo.account {iptr : Packet} {f : Flow} {t created : Int} {b : Box} {readings : List Int}
    (h : UpTo b.history readings) (ht : ∀ r ∈ readings, t ≤ r) :
    UpTo (account iptr f t created b).history readings := by
  intro n hn r hr
  rcases mem_account.mp hn with ⟨hn, -⟩ | rfl
  · exact h n hn r hr
  · show (accountRecord iptr f.key t (recordFor b.history f.key created)).lastUpdateTime ≤ r
    rw [accountRecord_lastUpdateTime]
    exact ht r hr

theorem ApprovedMeet.account {o : Options} {iptr : Packet} {f : Flow} {t created : Int} {b : Box}
    (h : ApprovedMeet o b.history)
    (hkeep : Keeps b.history (account iptr f t created b).history) :
    ApprovedMeet o (account iptr f t created b).history := by
  intro n hn ha
  rcases mem_account.mp hn with ⟨hn, -⟩ | rfl
  · exact h n hn ha
  · -- an approved accounted record was in the table, approved, and has grown
    have happ : (recordFor b.history f.key created).approval = true := by
      rw [← accountRecord_approval iptr f.key t]
      exact ha
    cases hf : hashFind b.history.toHashType f.key with
    | none =>
      rw [recordFor, hf] at happ
      exact absurd happ (by simp [historyCreate, HistoryType.zero])
    | some d =>
      have hmem : (⟨f.key, d⟩ : Node) ∈ b.history.nodes := (KeyedTable.hashFind_eq_some_iff _).mp hf
      have hfor : recordFor b.history f.key created = d := by
        rw [recordFor, hf]
        rfl
      rw [hfor] at happ
      obtain ⟨d', hd', hg⟩ := hkeep ⟨f.key, d⟩ hmem happ
      have heq := (Capture.account iptr f t created b).history.eq_of_key hn hd' rfl
      rw [heq]
      exact (h ⟨f.key, d⟩ hmem happ).grown hg

/-! ## Whole runs -/

/-- Each message shows all the connections of the ones before it. -/
def Growing (msgs : List Message) : Prop :=
  msgs.Pairwise fun m m' => ∀ n ∈ m.slots, ∃ n' ∈ m'.slots, n'.key = n.key

/-- What is true between events: approved records meet the criteria; the
messages built show records that met them and are in the table, approved. -/
structure ApprovalInv (b : Box) : Prop where
  meet : ApprovedMeet b.config.options b.history
  reported : ∀ msg ∈ builtMessages b.mqtt.log, ∀ n ∈ msg.slots,
    Criteria b.config.options n.record
      ∧ ∃ d, (⟨n.key, d⟩ : Node) ∈ b.history.nodes ∧ d.approval = true
  growing : Growing (builtMessages b.mqtt.log)

/-- What an event does to the table, given the clock and the counters: approved
records are kept, the criteria hold, and times stay behind the clock. -/
theorem history_step {pl : Platform} {b : Box} {ev : Event} {readings : List Int}
    (hmeet : ApprovedMeet b.config.options b.history)
    (hup : UpTo b.history (ev.readings ++ readings))
    (hord : (ev.readings ++ readings).Pairwise (· ≤ ·)) (hroom : NoWrap pl b ev) :
    Keeps (tickPart pl b ev).history (step pl b ev).history
      ∧ ApprovedMeet b.config.options (step pl b ev).history
      ∧ UpTo (step pl b ev).history readings := by
  have hmeet' := hmeet.tickPart pl ev
  have hup' := hup.tickPart pl ev
  have hrest : UpTo (tickPart pl b ev).history readings :=
    fun n hn r hr => hup' n hn r (List.mem_append_right _ hr)
  cases ev with
  | packet e iptr hwDir =>
    show Keeps (tick pl e.tick false e.t b).history (handleIpPacket pl e iptr hwDir b).history
      ∧ ApprovedMeet _ (handleIpPacket pl e iptr hwDir b).history
      ∧ UpTo (handleIpPacket pl e iptr hwDir b).history readings
    cases ha : acceptedFlow b.config e iptr hwDir with
    | none =>
      rw [handleIpPacket_none ha]
      exact ⟨Keeps.refl _, hmeet', hrest⟩
    | some f =>
      rw [handleIpPacket_some ha]
      -- the packet's own reading is the first of the readings still to come
      have hclock : ∀ n ∈ (tick pl e.tick false e.t b).history.nodes,
          n.record.lastUpdateTime ≤ e.t :=
        fun n hn => hup' n hn e.t (by simp [Event.readings])
      have hkeep : Keeps (tick pl e.tick false e.t b).history
          (account iptr f e.t e.created (tick pl e.tick false e.t b)).history :=
        keeps_account hclock (hroom f ha)
      refine ⟨hkeep, ApprovedMeet.account hmeet' hkeep, UpTo.account hrest fun r hr => ?_⟩
      exact List.rel_of_pairwise_cons hord (by simp [hr])
  | tick e send t => exact ⟨Keeps.refl _, hmeet', hrest⟩
  | delivered dt => exact ⟨Keeps.refl _, hmeet', hrest⟩
  | connlost now connected => exact ⟨Keeps.refl _, hmeet', hrest⟩

/-- One event keeps the invariant, and every approved record. -/
theorem ApprovalInv.step {pl : Platform} {b : Box} {ev : Event} {readings : List Int}
    (h : ApprovalInv b) (hup : UpTo b.history (ev.readings ++ readings))
    (hord : (ev.readings ++ readings).Pairwise (· ≤ ·)) (hroom : NoWrap pl b ev) :
    ApprovalInv (Capture.step pl b ev) ∧ Keeps b.history (Capture.step pl b ev).history
      ∧ UpTo (Capture.step pl b ev).history readings := by
  obtain ⟨hlate, hmeet, hup'⟩ := history_step h.meet hup hord hroom
  have hkeep := (keeps_tickPart pl b ev).trans hlate
  have hold : ∀ msg ∈ builtMessages b.mqtt.log, ∀ n ∈ msg.slots,
      Criteria b.config.options n.record
        ∧ ∃ d, (⟨n.key, d⟩ : Node) ∈ (Capture.step pl b ev).history.nodes ∧ d.approval = true := by
    intro msg hmsg n hn
    obtain ⟨hcrit, d, hd, happ⟩ := h.reported msg hmsg n hn
    obtain ⟨d', hd', hg⟩ := hkeep ⟨n.key, d⟩ hd happ
    exact ⟨hcrit, d', hd', hg.approval⟩
  have hcfg : (Capture.step pl b ev).config = b.config := step_config pl b ev
  refine ⟨⟨?_, ?_, ?_⟩, hkeep, hup'⟩
  · rw [hcfg]
    exact hmeet
  · intro msg hmsg n hn
    rw [hcfg]
    rcases built_step pl b ev with hb | ⟨new, hslots, hb⟩
    · rw [hb] at hmsg
      exact hold msg hmsg n hn
    · rw [hb] at hmsg
      rcases List.mem_append.mp hmsg with hmsg | hmsg
      · exact hold msg hmsg n hn
      · -- the new message shows the approved records after the tick
        rw [List.mem_singleton.mp hmsg, hslots] at hn
        obtain ⟨hnode, happ⟩ := List.mem_filter.mp hn
        obtain ⟨d, hd, hg⟩ := hlate n hnode happ
        exact ⟨h.meet.tickPart pl ev n hnode happ, d, hd, hg.approval⟩
  · rcases built_step pl b ev with hb | ⟨new, hslots, hb⟩
    · rw [hb]
      exact h.growing
    · rw [hb]
      refine List.pairwise_append.mpr ⟨h.growing, List.pairwise_singleton _ _, ?_⟩
      intro msg hmsg new' hnew n hn
      obtain ⟨-, d, hd, happ⟩ := h.reported msg hmsg n hn
      obtain ⟨d', hd', hg⟩ := keeps_tickPart pl b ev ⟨n.key, d⟩ hd happ
      rw [List.mem_singleton.mp hnew, hslots]
      exact ⟨⟨n.key, d'⟩, List.mem_filter.mpr ⟨hd', hg.approval⟩, rfl⟩

/-- A run with a clock that does not go back, before the readings still to come. -/
theorem ApprovalInv.run {pl : Platform} {readings : List Int} : ∀ {evs : List Event} {b : Box},
    ApprovalInv b → UpTo b.history (evs.flatMap Event.readings ++ readings) →
    (evs.flatMap Event.readings ++ readings).Pairwise (· ≤ ·) →
    Along (Capture.step pl) (NoWrap pl) b evs →
    ApprovalInv (Lib.run (Capture.step pl) b evs)
      ∧ Keeps b.history (Lib.run (Capture.step pl) b evs).history
      ∧ UpTo (Lib.run (Capture.step pl) b evs).history readings
  | [], b, h, hup, _, _ => ⟨h, Keeps.refl _, by simpa using hup⟩
  | ev :: evs, b, h, hup, hord, hroom => by
    rw [List.flatMap_cons, List.append_assoc] at hup hord
    obtain ⟨h', hkeep, hup'⟩ := h.step hup hord hroom.1
    obtain ⟨h'', hkeep', hup''⟩ := ApprovalInv.run h' hup' (List.pairwise_append.mp hord).2.1 hroom.2
    exact ⟨h'', hkeep.trans hkeep', hup''⟩

theorem ApprovalInv.boot (config : Config) (sendLast lastTimestamp connectedAt : Int)
    (connected : Bool) (readings : List Int) :
    ApprovalInv (boot config sendLast lastTimestamp connectedAt connected)
      ∧ UpTo (Capture.boot config sendLast lastTimestamp connectedAt connected).history readings := by
  have hnodes := nodes_boot config sendLast lastTimestamp connectedAt connected
  have hlog : (Capture.boot config sendLast lastTimestamp connectedAt connected).mqtt.log = [] :=
    congrArg Mqtt.log (initMqtt_eq connected connectedAt)
  refine ⟨⟨fun n hn => ?_, fun msg hmsg => ?_, ?_⟩, fun n hn => ?_⟩
  · rw [hnodes] at hn
    exact absurd hn List.not_mem_nil
  · rw [hlog] at hmsg
    exact absurd hmsg List.not_mem_nil
  · rw [hlog]
    exact List.Pairwise.nil
  · rw [hnodes] at hn
    exact absurd hn List.not_mem_nil

/-- **Approval is sound and permanent.** In a run whose clock does not go back
and whose counters do not wrap: a record approved after some events is still
there after any further ones, under its key, with its creation time, grown, and
meeting the criteria; every record of every message meets them; and each message
has all the connections of the earlier ones. -/
theorem approval_permanent (pl : Platform) (config : Config)
    (sendLast lastTimestamp connectedAt : Int) (connected : Bool) (earlier later : List Event)
    (hclock : ((earlier ++ later).flatMap Event.readings).Pairwise (· ≤ ·))
    (hroom : Along (step pl) (NoWrap pl)
      (boot config sendLast lastTimestamp connectedAt connected) (earlier ++ later)) :
    (∀ n ∈ (run (step pl)
          (boot config sendLast lastTimestamp connectedAt connected) earlier).history.nodes,
        n.record.approval = true →
        ∃ d, (⟨n.key, d⟩ : Node) ∈ (run (step pl)
            (boot config sendLast lastTimestamp connectedAt connected)
            (earlier ++ later)).history.nodes
          ∧ Grown n.record d ∧ Criteria config.options d)
      ∧ (∀ msg ∈ builtMessages (run (step pl)
            (boot config sendLast lastTimestamp connectedAt connected) (earlier ++ later)).mqtt.log,
          ∀ n ∈ msg.slots, Criteria config.options n.record)
      ∧ Growing (builtMessages (run (step pl)
          (boot config sendLast lastTimestamp connectedAt connected) (earlier ++ later)).mqtt.log) := by
  rw [List.flatMap_append] at hclock
  obtain ⟨hroom₁, hroom₂⟩ := (Along.append earlier later _).mp hroom
  obtain ⟨hinv, hup⟩ := ApprovalInv.boot config sendLast lastTimestamp connectedAt connected
    (earlier.flatMap Event.readings ++ later.flatMap Event.readings)
  -- the earlier events with the later readings to come, then the later events with none
  obtain ⟨hinv₁, -, hup₁⟩ := hinv.run hup hclock hroom₁
  rw [← List.append_nil (later.flatMap Event.readings)] at hup₁ hclock
  rw [← List.append_assoc] at hclock
  obtain ⟨hinv₂, hkeep, -⟩ := hinv₁.run hup₁
    (by rw [List.append_assoc] at hclock; exact (List.pairwise_append.mp hclock).2.1) hroom₂
  have hcfg : (run (step pl) (run (step pl)
      (boot config sendLast lastTimestamp connectedAt connected) earlier) later).config = config := by
    rw [run_config, run_config]
    rfl
  rw [run_append]
  refine ⟨fun n hn ha => ?_, fun msg hmsg n hn => ?_, hinv₂.growing⟩
  · obtain ⟨d, hd, hg⟩ := hkeep n hn ha
    have hcrit := hinv₂.meet ⟨n.key, d⟩ hd hg.approval
    rw [hcfg] at hcrit
    exact ⟨d, hd, hg, hcrit⟩
  · have hcrit := (hinv₂.reported msg hmsg n hn).1
    rw [hcfg] at hcrit
    exact hcrit

/-- A record approved at 20 and reported, another packet of it, and a second message. -/
theorem approval_permanent_reported :
    (∀ n ∈ (run (step lp64) (boot plainConfig 0 0 0 true) [packetAt 10, sendAt 20 (some 1)]).history.nodes,
        n.record.approval = true →
        ∃ d, (⟨n.key, d⟩ : Node) ∈ (run (step lp64) (boot plainConfig 0 0 0 true)
            ([packetAt 10, sendAt 20 (some 1)]
              ++ [.delivered 1, packetAt 21, sendAt 30 (some 2)])).history.nodes
          ∧ Grown n.record d ∧ Criteria plainConfig.options d)
      ∧ (∀ msg ∈ builtMessages (run (step lp64) (boot plainConfig 0 0 0 true)
            ([packetAt 10, sendAt 20 (some 1)]
              ++ [.delivered 1, packetAt 21, sendAt 30 (some 2)])).mqtt.log,
          ∀ n ∈ msg.slots, Criteria plainConfig.options n.record)
      ∧ Growing (builtMessages (run (step lp64) (boot plainConfig 0 0 0 true)
          ([packetAt 10, sendAt 20 (some 1)]
            ++ [.delivered 1, packetAt 21, sendAt 30 (some 2)])).mqtt.log) :=
  approval_permanent lp64 plainConfig 0 0 0 true [packetAt 10, sendAt 20 (some 1)]
    [.delivered 1, packetAt 21, sendAt 30 (some 2)] (by decide) (by decide +kernel)

end Dotqoo.Capture
