import Dotqoo.Flow.OneFlow

/-!
# Long-lived connections

Option `-d` is to drop a connection that shows no packet within so many seconds.
What `is_short_connection` does is to look at a record once it is two minutes old,
whatever the option says: if it has not lasted for `options.duration` by then, it is
dropped. If the duration is longer than two minutes and a pass falls in between, a
connection with a packet every second is dropped as well, and its bytes with it.

Two facts carry the argument. A flow's packets bring a `tick` each, so the last pass
is never 4 seconds behind the last packet (`Tracked.recent`). And where the flow has
a packet every second, an event is at most one second behind the last packet, so a
pass finds the record at most one second old. A record that is still undecided at
its duration is approved by the next pass, unless an earlier pass dropped it.
-/

namespace Dotqoo.Capture

open Dotqoo.Table Dotqoo.Lib

/-- No pass finds the flow's record unapproved and too short. -/
def SparesFlow (key : AddrPair) (b : Box) (ev : Event) : Prop :=
  ∀ t ∈ b.pass ev, ∀ d ∈ hashFind b.history.toHashType key, d.approval = false →
    isShortConnection b.config.options d t = false

/-- A packet of positive length in every second of an interval. -/
def Active (c e : Int) (ps : List Seen) : Prop :=
  ∀ t, c ≤ t → t ≤ e → ∃ p ∈ ps, p.t = t ∧ 0 < (ipLen p.packet).toNat

/-- The record of the flow is the one created at `c`, it is approved, and it has
counted the packets `ps`. -/
def Reported (key : AddrPair) (c : Int) (ps : List Packet) (b : Box) : Prop :=
  ∃ d, hashFind b.history.toHashType key = some d ∧ d.createTime = c ∧ d.approval = true
    ∧ d.totalSent.toNat = sentBytes key ps ∧ d.totalRecv.toNat = recvBytes key ps

/-! ## The record of a flow -/

/-- The packets of a flow since `c` are `seen` and `d` is its record; the last pass was
at `last`. -/
structure Tracked (o : Options) (key : AddrPair) (c last : Int) (seen : List Seen)
    (d : HistoryType) : Prop where
  created : d.createTime = c
  since : c ≤ d.lastUpdateTime
  upTo : ∀ s ∈ seen, s.t ≤ d.lastUpdateTime
  agrees : Agrees key d (seen.map Seen.packet)
  /-- The last pass is less than 4 seconds before the last packet. -/
  recent : d.lastUpdateTime < last + resolution
  /-- No pass after the duration has left the record undecided. -/
  undecided : d.approval = false → last ≤ c + o.duration
  /-- With a duration of two minutes and a pass interval: no pass after the two minutes. -/
  early : checkAfterNSecs + resolution ≤ o.duration →
    d.approval = false ∧ last ≤ c + checkAfterNSecs

/-- What the run gives for a pass at `t`: it is not before the last packet, at most one
second behind it while the flow is active, and the flow has carried something by then. -/
structure InTime (o : Options) (c : Int) (seen : List Seen) (d : HistoryType) (t : Int) : Prop where
  threshold : o.threshold = 0
  duration : 0 ≤ o.duration
  room : lengths (seen.map Seen.packet) < 2 ^ 64
  after : d.lastUpdateTime ≤ t
  next : d.lastUpdateTime < c + o.duration + 2 * resolution + 1 → t ≤ d.lastUpdateTime + 1
  carried : c < t → 0 < lengths (seen.map Seen.packet)

/-- With a threshold of 0 no record is a low-traffic one. -/
theorem isLowTrafficConnection_zero {o : Options} (h : o.threshold = 0) (d : HistoryType) (t : Int) :
    isLowTrafficConnection o d t = false := by
  have hnot : ¬ d.totalRecv + d.totalSent < o.threshold.toUInt64 := by
    rw [h]
    exact UInt64.not_lt_zero
  simp [isLowTrafficConnection, hnot]

theorem sentBytes_add_recvBytes (key : AddrPair) (ps : List Packet) :
    sentBytes key ps + recvBytes key ps = lengths ps := by
  induction ps with
  | nil => rfl
  | cons p ps ih =>
    by_cases hsrc : ipSrc p = key.src
    · simp [sentBytes, recvBytes, lengths, hsrc] at ih ⊢
      omega
    · simp [sentBytes, recvBytes, lengths, hsrc] at ih ⊢
      omega

/-- The counters of a record below `2 ^ 64` bytes are the bytes themselves. -/
theorem Agrees.exact {key : AddrPair} {d : HistoryType} {ps : List Packet} (h : Agrees key d ps)
    (hroom : lengths ps < 2 ^ 64) :
    d.totalSent.toNat = sentBytes key ps ∧ d.totalRecv.toNat = recvBytes key ps := by
  have hsum := sentBytes_add_recvBytes key ps
  rw [h.1, h.2]
  exact ⟨Nat.mod_eq_of_lt (by omega), Nat.mod_eq_of_lt (by omega)⟩

/-- A record that has lasted and counted anything meets the criteria. -/
theorem meetsCriteria_of_lasted {o : Options} {key : AddrPair} {d : HistoryType} {ps : List Packet}
    (hth : o.threshold = 0) (h : Agrees key d ps) (hroom : lengths ps < 2 ^ 64)
    (hpos : 0 < lengths ps) (hlast : o.duration ≤ d.lastUpdateTime - d.createTime) :
    meetsCriteria o d = true := by
  obtain ⟨hsent, hrecv⟩ := h.exact hroom
  have hsum := sentBytes_add_recvBytes key ps
  have htotal : (d.totalRecv + d.totalSent).toNat = lengths ps := by
    rw [UInt64.toNat_add, hsent, hrecv, Nat.add_comm, hsum]
    exact Nat.mod_eq_of_lt hroom
  have hgt : o.threshold.toUInt64 < d.totalRecv + d.totalSent := by
    rw [UInt64.lt_iff_toNat_lt, htotal, hth]
    exact hpos
  simp [meetsCriteria, hlast, hgt]

theorem isShortConnection_iff {o : Options} {d : HistoryType} {t : Int} :
    isShortConnection o d t = true ↔ d.lastUpdateTime - d.createTime < o.duration
      ∧ checkAfterNSecs < t - d.createTime := by
  simp [isShortConnection]

/-- The record after a pass that does not find it short: as it was, approved or not,
or newly approved. -/
theorem settle_spared {o : Options} {d : HistoryType} {t : Int} (hth : o.threshold = 0)
    (hspare : d.approval = false → isShortConnection o d t = false) :
    (d.approval = true ∧ settle o t d = some d) ∨
    (d.approval = false ∧ meetsCriteria o d = true
      ∧ settle o t d = some { d with approval := true }) ∨
    (d.approval = false ∧ meetsCriteria o d = false ∧ settle o t d = some d) := by
  cases ha : d.approval with
  | true => exact Or.inl ⟨rfl, settle_approved ha⟩
  | false =>
    right
    have hkept : ¬ (isShortConnection o d t || isLowTrafficConnection o d t) = true := by
      simp [hspare ha, isLowTrafficConnection_zero hth]
    unfold settle
    rw [if_pos ha, if_neg hkept]
    cases hm : meetsCriteria o d with
    | true => exact Or.inl ⟨rfl, rfl, if_pos rfl⟩
    | false => exact Or.inr ⟨rfl, rfl, if_neg (by simp)⟩

namespace Tracked

variable {o : Options} {key : AddrPair} {c last : Int} {seen : List Seen} {d : HistoryType}
  {t : Int}

/-- An undecided record is at most one second old for a pass. -/
theorem one_behind (h : Tracked o key c last seen d) (ht : InTime o c seen d t)
    (ha : d.approval = false) : t ≤ d.lastUpdateTime + 1 := by
  have hrecent := h.recent
  have hundecided := h.undecided ha
  apply ht.next
  rw [resolution] at hrecent ⊢
  omega

/-- A pass that does not find the record short keeps it tracked. -/
theorem pass (h : Tracked o key c last seen d) (ht : InTime o c seen d t)
    (hspare : d.approval = false → isShortConnection o d t = false) :
    ∃ d', settle o t d = some d' ∧ Tracked o key c t seen d'
      ∧ d'.lastUpdateTime = d.lastUpdateTime := by
  have hafter := ht.after
  have hrecent := h.recent
  have hcreated := h.created
  have hbehind : d.lastUpdateTime < t + resolution := by
    rw [resolution]
    omega
  rcases settle_spared ht.threshold hspare with ⟨ha, hs⟩ | ⟨ha, hm, hs⟩ | ⟨ha, hm, hs⟩
  · refine ⟨d, hs, ⟨hcreated, h.since, h.upTo, h.agrees, hbehind, ?_, ?_⟩, rfl⟩
    · intro hno
      rw [ha] at hno
      cases hno
    · intro hlong
      rw [(h.early hlong).1] at ha
      cases ha
  · refine ⟨{ d with approval := true }, hs,
      ⟨hcreated, h.since, h.upTo, h.agrees, hbehind, ?_, ?_⟩, rfl⟩
    · intro hno
      cases hno
    · -- nothing lasts that long before the two minutes are over
      intro hlong
      have hfirst := (h.early hlong).2
      have hlasted := (Criteria.of_meetsCriteria hm).1
      rw [resolution] at hrecent hlong
      omega
  · refine ⟨d, hs, ⟨hcreated, h.since, h.upTo, h.agrees, hbehind, ?_, ?_⟩, rfl⟩
    · -- a pass after the duration would have approved the record
      intro _
      by_contra hlate
      have hone := h.one_behind ht ha
      have hduration := ht.duration
      have hyes := meetsCriteria_of_lasted ht.threshold h.agrees ht.room (ht.carried (by omega))
        (by omega)
      rw [hm] at hyes
      cases hyes
    · -- a pass after two minutes would have dropped it
      intro hlong
      refine ⟨ha, ?_⟩
      by_contra hlate
      have hfirst := (h.early hlong).2
      have hyes : isShortConnection o d t = true := by
        rw [isShortConnection_iff, hcreated]
        rw [resolution] at hrecent hlong
        omega
      rw [hspare ha] at hyes
      cases hyes

/-- A packet right after a pass keeps the record tracked. -/
theorem packet (h : Tracked o key c last seen d) {s : Seen} (hafter : d.lastUpdateTime ≤ s.t)
    (hrecent : s.t < last + resolution) :
    Tracked o key c last (seen ++ [s]) (accountRecord s.packet key s.t d) where
  created := by rw [accountRecord_createTime, h.created]
  since := by
    rw [accountRecord_lastUpdateTime]
    exact h.since.trans hafter
  upTo := by
    intro s' hs'
    rw [accountRecord_lastUpdateTime]
    rcases List.mem_append.mp hs' with hs' | hs'
    · exact (h.upTo s' hs').trans hafter
    · rw [List.mem_singleton.mp hs']
  agrees := by
    rw [List.map_append]
    exact h.agrees.account s.packet s.t
  recent := by
    rw [accountRecord_lastUpdateTime]
    exact hrecent
  undecided := by
    rw [accountRecord_approval]
    exact h.undecided
  early := by
    rw [accountRecord_approval]
    exact h.early

/-- The first packet creates the record. -/
theorem first {s : Seen} (hduration : 0 ≤ o.duration) (hlast : last ≤ s.t)
    (hrecent : s.t < last + resolution) :
    Tracked o key s.t last [s] (accountRecord s.packet key s.t (historyCreate s.t)) where
  created := accountRecord_createTime s.packet key s.t (historyCreate s.t)
  since := by rw [accountRecord_lastUpdateTime]
  upTo := by
    intro s' hs'
    rw [accountRecord_lastUpdateTime, List.mem_singleton.mp hs']
  agrees := by
    have hfresh : Agrees key (historyCreate s.t) [] := ⟨rfl, rfl⟩
    exact hfresh.account s.packet s.t
  recent := by
    rw [accountRecord_lastUpdateTime]
    exact hrecent
  undecided := fun _ => by omega
  early := by
    intro _
    rw [accountRecord_approval, checkAfterNSecs]
    exact ⟨rfl, by omega⟩

/-- With a duration of up to two minutes no pass finds the record short. -/
theorem spared (h : Tracked o key c last seen d) (ht : InTime o c seen d t)
    (hsmall : o.duration ≤ checkAfterNSecs) (ha : d.approval = false) :
    isShortConnection o d t = false := by
  have hone := h.one_behind ht ha
  have hcreated := h.created
  rw [← Bool.not_eq_true, isShortConnection_iff]
  omega

/-- Active for long enough, the record has been approved. -/
theorem approved (h : Tracked o key c last seen d)
    (hend : c + o.duration + 2 * resolution + 1 ≤ d.lastUpdateTime) : d.approval = true := by
  by_contra hno
  have hundecided := h.undecided (by simpa using hno)
  have hrecent := h.recent
  rw [resolution] at hrecent hend
  omega

end Tracked

/-! ## One event -/

section Step

variable (pl : Platform) {b : Box} {ev : Event} {key : AddrPair} {c : Int}

/-- An event keeps the record tracked, unless its pass drops it. -/
theorem Tracked.step {seen : List Seen} {d : HistoryType}
    (h : Tracked b.config.options key c b.lastTimestamp seen d)
    (hfound : hashFind b.history.toHashType key = some d)
    (ht : ∀ t ∈ b.pass ev, InTime b.config.options c seen d t) (hspare : SparesFlow key b ev)
    (hagree : ev.Agrees) (hafter : ∀ s ∈ ev.seen b.config key, d.lastUpdateTime ≤ s.t) :
    ∃ d', hashFind (step pl b ev).history.toHashType key = some d' ∧
      Tracked b.config.options key c (step pl b ev).lastTimestamp
        (seen ++ (ev.seen b.config key).toList) d' ∧
      (d'.lastUpdateTime = d.lastUpdateTime ∨
        ∃ s ∈ ev.seen b.config key, d'.lastUpdateTime = s.t) := by
  have htick : ∃ d', hashFind (tickPart pl b ev).history.toHashType key = some d' ∧
      Tracked b.config.options key c (Capture.step pl b ev).lastTimestamp seen d' ∧
      d'.lastUpdateTime = d.lastUpdateTime := by
    rw [hashFind_tickPart, lastTimestamp_step, hfound]
    cases hpass : b.pass ev with
    | none => exact ⟨d, rfl, h, rfl⟩
    | some t => exact h.pass (ht t hpass) (hspare t hpass d hfound)
  obtain ⟨d', hfind, htracked, hlast⟩ := htick
  cases hseen : ev.seen b.config key with
  | none =>
    rw [step_of_not_seen hseen, Option.toList_none, List.append_nil]
    exact ⟨d', hfind, htracked, Or.inl hlast⟩
  | some s =>
    rw [step_of_seen pl hseen hagree, recordFor, hfind]
    refine ⟨_, rfl, htracked.packet ?_ (recent_of_seen hseen), Or.inr ⟨s, rfl, ?_⟩⟩
    · rw [hlast]
      exact hafter s hseen
    · exact accountRecord_lastUpdateTime s.packet key s.t d'

/-- The record of the key, if there is one, was created after `c`. -/
def Recreated (key : AddrPair) (c : Int) (b : Box) : Prop :=
  ∀ d ∈ hashFind b.history.toHashType key, c < d.createTime

/-- What holds of the record after the tick, and of a new one, holds after the event. -/
theorem Recreated.of_tickPart (hagree : ev.Agrees) (hlater : ∀ s ∈ ev.seen b.config key, c < s.t)
    (h : Recreated key c (tickPart pl b ev)) : Recreated key c (step pl b ev) := by
  intro d hd
  cases hseen : ev.seen b.config key with
  | none =>
    rw [step_of_not_seen hseen] at hd
    exact h d hd
  | some s =>
    rw [step_of_seen pl hseen hagree] at hd
    cases hd
    rw [accountRecord_createTime, recordFor]
    cases hfind : hashFind (tickPart pl b ev).history.toHashType key with
    | none => exact hlater s hseen
    | some d => exact h d hfind

theorem Recreated.step (h : Recreated key c b) (hagree : ev.Agrees)
    (hlater : ∀ r ∈ ev.readings, c < r) : Recreated key c (step pl b ev) := by
  refine Recreated.of_tickPart pl hagree (fun s hs => hlater _ (mem_readings_of_seen hs)) ?_
  intro d hd
  rw [hashFind_tickPart] at hd
  cases hpass : b.pass ev with
  | none =>
    rw [hpass] at hd
    exact h d hd
  | some t =>
    rw [hpass] at hd
    obtain ⟨d', hfind, hs⟩ := Option.bind_eq_some_iff.mp hd
    rw [(settle_some hs).2.2.1]
    exact h d' hfind

theorem Recreated.run {evs : List Event} (h : Recreated key c b)
    (hagree : ∀ ev ∈ evs, ev.Agrees) (hlater : ∀ r ∈ evs.flatMap Event.readings, c < r) :
    Recreated key c (run (Capture.step pl) b evs) := by
  induction evs generalizing b with
  | nil => exact h
  | cons ev evs ih =>
    rw [List.flatMap_cons] at hlater
    apply ih
    · exact h.step pl (hagree ev List.mem_cons_self) fun r hr =>
        hlater r (List.mem_append_left _ hr)
    · exact fun ev' hev => hagree ev' (List.mem_cons_of_mem ev hev)
    · exact fun r hr => hlater r (List.mem_append_right _ hr)

/-- A pass that finds the record short drops it, two minutes after its creation. -/
theorem Tracked.dropped {seen : List Seen} {d : HistoryType}
    (h : Tracked b.config.options key c b.lastTimestamp seen d)
    (hfound : hashFind b.history.toHashType key = some d) (hshort : ¬ SparesFlow key b ev)
    (hagree : ev.Agrees) :
    ∃ t ∈ ev.readings, c < t ∧ Recreated key c (Capture.step pl b ev) := by
  simp only [SparesFlow, not_forall] at hshort
  obtain ⟨t, hpass, d', hd', ha, hyes⟩ := hshort
  rw [hfound] at hd'
  cases hd'
  rw [Bool.not_eq_false] at hyes
  have hlate := (isShortConnection_iff.mp hyes).2
  rw [h.created, checkAfterNSecs] at hlate
  refine ⟨t, mem_readings_of_pass hpass, by omega, ?_⟩
  refine Recreated.of_tickPart pl hagree ?_ ?_
  · intro s hs
    rw [← pass_of_seen hs hpass]
    omega
  · have hnone : settle b.config.options t d = none :=
      settle_eq_none_iff.mpr ⟨ha, by rw [hyes, Bool.true_or]⟩
    intro d' hd'
    rw [hashFind_tickPart, hpass, hfound] at hd'
    change d' ∈ settle b.config.options t d at hd'
    rw [hnone] at hd'
    cases hd'

end Step

/-! ## Runs -/

/-- The events to come, where the flow's packets so far are `seen`: readings agree and
are in order, the flow is active for its duration and two more pass intervals, and its
bytes fit the counters. -/
structure FlowRun (config : Config) (key : AddrPair) (c : Int) (seen : List Seen)
    (evs : List Event) : Prop where
  threshold : config.options.threshold = 0
  duration : 0 ≤ config.options.duration
  agree : ∀ ev ∈ evs, ev.Agrees
  ordered : (evs.flatMap Event.readings).Pairwise (· ≤ ·)
  active : Active c (c + config.options.duration + 2 * resolution + 1)
    (seen ++ flowPackets config key evs)
  room : lengths ((seen ++ flowPackets config key evs).map Seen.packet) < 2 ^ 64

theorem lengths_pos {ps : List Packet} {p : Packet} (hp : p ∈ ps) (hpos : 0 < (ipLen p).toNat) :
    0 < lengths ps := by
  have hle : (ipLen p).toNat ≤ lengths ps :=
    List.le_sum_of_mem (List.mem_map_of_mem (f := fun p => (ipLen p).toNat) hp)
  omega

theorem FlowRun.tail {config : Config} {key : AddrPair} {c : Int} {seen : List Seen} {ev : Event}
    {evs : List Event} (h : FlowRun config key c seen (ev :: evs)) :
    FlowRun config key c (seen ++ (ev.seen config key).toList) evs := by
  have hordered := h.ordered
  have hactive := h.active
  have hroom := h.room
  rw [List.flatMap_cons] at hordered
  rw [flowPackets_cons, ← List.append_assoc] at hactive hroom
  exact ⟨h.threshold, h.duration, fun ev' hev => h.agree ev' (List.mem_cons_of_mem ev hev),
    (List.pairwise_append.mp hordered).2.1, hactive, hroom⟩

/-- Every pass over the record of an active flow is in time. -/
theorem FlowRun.inTime {b : Box} {key : AddrPair} {c : Int} {seen : List Seen} {d : HistoryType}
    {ev : Event} {evs : List Event} (h : FlowRun b.config key c seen (ev :: evs))
    (htracked : Tracked b.config.options key c b.lastTimestamp seen d)
    (hlater : ∀ r ∈ (ev :: evs).flatMap Event.readings, d.lastUpdateTime ≤ r) :
    ∀ t ∈ b.pass ev, InTime b.config.options c seen d t := by
  intro t ht
  refine ⟨h.threshold, h.duration, ?_, ?_, ?_, ?_⟩
  · have hroom := h.room
    rw [List.map_append, lengths, List.map_append, List.sum_append] at hroom
    exact Nat.lt_of_le_of_lt (Nat.le_add_right _ _) hroom
  · exact hlater t (List.mem_flatMap.mpr ⟨ev, List.mem_cons_self, mem_readings_of_pass ht⟩)
  · -- the packet of the next second is still to come
    intro hactive
    have hsince := htracked.since
    obtain ⟨p, hp, hpt, -⟩ := h.active (d.lastUpdateTime + 1) (by omega) (by omega)
    rcases List.mem_append.mp hp with hp | hp
    · have hle := htracked.upTo p hp
      omega
    · rw [← hpt]
      exact pass_le_of_flowPackets ht hp h.ordered
  · -- a packet of the first second has been seen
    intro hlate
    have hduration := h.duration
    obtain ⟨p, hp, hpt, hpos⟩ := h.active c (Int.le_refl c) (by rw [resolution]; omega)
    rcases List.mem_append.mp hp with hp | hp
    · exact lengths_pos (List.mem_map_of_mem hp) hpos
    · have hle := pass_le_of_flowPackets ht hp h.ordered
      omega

/-- What is known of a run from a state where the packets of the flow are `seen`. -/
structure Outcome (pl : Platform) (key : AddrPair) (c : Int) (seen : List Seen) (b : Box)
    (evs : List Event) : Prop where
  iff : Reported key c ((seen ++ flowPackets b.config key evs).map Seen.packet)
    (run (step pl) b evs) ↔ Along (step pl) (SparesFlow key) b evs
  small : b.config.options.duration ≤ checkAfterNSecs → Along (step pl) (SparesFlow key) b evs
  large : checkAfterNSecs + resolution ≤ b.config.options.duration →
    ¬ Along (step pl) (SparesFlow key) b evs

/-- An event that spares the record decides nothing. -/
theorem Outcome.cons {pl : Platform} {key : AddrPair} {c : Int} {seen : List Seen} {b : Box}
    {ev : Event} {evs : List Event} (hspare : SparesFlow key b ev)
    (h : Outcome pl key c (seen ++ (ev.seen b.config key).toList) (step pl b ev) evs) :
    Outcome pl key c seen b (ev :: evs) := by
  have hiff := h.iff
  have hsmall := h.small
  have hlarge := h.large
  rw [step_config] at hiff hsmall hlarge
  rw [List.append_assoc, ← flowPackets_cons] at hiff
  constructor
  · rw [run_cons, hiff, Along]
    exact ⟨fun hrest => ⟨hspare, hrest⟩, fun hall => hall.2⟩
  · intro hdur
    exact ⟨hspare, hsmall hdur⟩
  · intro hdur hall
    exact hlarge hdur hall.2

/-- The run after the first packet of the flow. -/
theorem FlowRun.tracked {pl : Platform} {key : AddrPair} {c : Int} : ∀ {evs : List Event} {b : Box}
    {seen : List Seen} {d : HistoryType}, FlowRun b.config key c seen evs →
    hashFind b.history.toHashType key = some d →
    Tracked b.config.options key c b.lastTimestamp seen d →
    (∀ r ∈ evs.flatMap Event.readings, d.lastUpdateTime ≤ r) → Outcome pl key c seen b evs := by
  intro evs
  induction evs with
  | nil =>
    intro b seen d h hfound htracked _
    have hall : seen ++ flowPackets b.config key [] = seen := List.append_nil seen
    have hactive := h.active
    have hroom := h.room
    rw [hall] at hactive hroom
    -- the last packet is not before the end of the activity
    have hend : c + b.config.options.duration + 2 * resolution + 1 ≤ d.lastUpdateTime := by
      by_contra hshort
      have hsince := htracked.since
      obtain ⟨p, hp, hpt, -⟩ := hactive (d.lastUpdateTime + 1) (by omega) (by omega)
      have hle := htracked.upTo p hp
      omega
    obtain ⟨hsent, hrecv⟩ := htracked.agrees.exact hroom
    refine ⟨⟨fun _ => trivial, fun _ => ?_⟩, fun _ => trivial, fun hlong _ => ?_⟩
    · rw [hall]
      exact ⟨d, hfound, htracked.created, htracked.approved hend, hsent, hrecv⟩
    · have hno := (htracked.early hlong).1
      rw [htracked.approved hend] at hno
      cases hno
  | cons ev evs ih =>
    intro b seen d h hfound htracked hlater
    have hin := h.inTime htracked hlater
    have hagree := h.agree ev List.mem_cons_self
    have hlater' := hlater
    rw [List.flatMap_cons] at hlater'
    by_cases hspare : SparesFlow key b ev
    · obtain ⟨d', hfound', htracked', hlast⟩ := htracked.step pl hfound hin hspare hagree
        fun s hs => hlater' _ (List.mem_append_left _ (mem_readings_of_seen hs))
      refine Outcome.cons hspare (ih ?_ hfound' ?_ ?_)
      · rw [step_config]
        exact h.tail
      · rw [step_config]
        exact htracked'
      · intro r hr
        rcases hlast with hlast | ⟨s, hs, hlast⟩
        · rw [hlast]
          exact hlater' r (List.mem_append_right _ hr)
        · rw [hlast]
          exact readings_le h.ordered (mem_readings_of_seen hs) hr
    · -- the record is dropped, and what comes later is younger
      obtain ⟨t, ht, hct, hrecreated⟩ := htracked.dropped pl hfound hspare hagree
      have hend := hrecreated.run pl h.tail.agree fun r hr =>
        Int.lt_of_lt_of_le hct (readings_le h.ordered ht hr)
      refine ⟨⟨fun hreported => ?_, fun hall => absurd hall.1 hspare⟩, fun hsmall => ?_,
        fun _ hall => hspare hall.1⟩
      · obtain ⟨d', hfind, hcreated, -⟩ := hreported
        rw [run_cons] at hfind
        have hlt := hend d' hfind
        omega
      · exfalso
        apply hspare
        intro t ht d' hd' ha
        rw [hfound] at hd'
        cases hd'
        exact htracked.spared (hin t ht) hsmall ha

/-- The run up to the first packet of the flow. -/
theorem FlowRun.unseen {pl : Platform} {key : AddrPair} {c : Int} : ∀ {evs : List Event} {b : Box},
    FlowRun b.config key c [] evs → hashFind b.history.toHashType key = none →
    (flowPackets b.config key evs).head?.map Seen.t = some c →
    (∀ r ∈ evs.flatMap Event.readings, b.lastTimestamp ≤ r) → Outcome pl key c [] b evs := by
  intro evs
  induction evs with
  | nil =>
    intro b _ _ hfirst _
    cases hfirst
  | cons ev evs ih =>
    intro b h hnone hfirst hlater
    have hspare : SparesFlow key b ev := by
      intro t _ d hd
      rw [hnone] at hd
      cases hd
    have htick : hashFind (tickPart pl b ev).history.toHashType key = none := by
      rw [hashFind_tickPart, hnone]
      cases b.pass ev <;> rfl
    have hlater' := hlater
    rw [List.flatMap_cons] at hlater'
    have htail := h.tail
    have hfirst' := hfirst
    rw [flowPackets_cons] at hfirst'
    apply Outcome.cons hspare
    cases hseen : ev.seen b.config key with
    | none =>
      rw [hseen] at htail hfirst'
      apply ih
      · rw [step_config]
        exact htail
      · rw [step_of_not_seen hseen, htick]
      · rw [step_config]
        exact hfirst'
      · intro r hr
        rw [lastTimestamp_step]
        cases hpass : b.pass ev with
        | none => exact hlater' r (List.mem_append_right _ hr)
        | some t => exact readings_le h.ordered (mem_readings_of_pass hpass) hr
    | some s =>
      rw [hseen] at htail hfirst'
      obtain rfl : s.t = c := Option.some.inj hfirst'
      have hlast : (step pl b ev).lastTimestamp ≤ s.t := by
        rw [lastTimestamp_step]
        cases hpass : b.pass ev with
        | none => exact hlater' s.t (List.mem_append_left _ (mem_readings_of_seen hseen))
        | some t => exact (pass_of_seen hseen hpass).le
      have hrecord := step_of_seen pl hseen (h.agree ev List.mem_cons_self)
      rw [recordFor, htick] at hrecord
      rw [List.nil_append] at htail ⊢
      apply FlowRun.tracked _ hrecord
      · rw [step_config]
        exact Tracked.first h.duration hlast (recent_of_seen hseen)
      · intro r hr
        rw [accountRecord_lastUpdateTime]
        exact readings_le h.ordered (mem_readings_of_seen hseen) hr
      · rw [step_config]
        exact htail

/-! ## Long-lived connections -/

/-- A run from the start in which the flow is first seen at `c` and has a packet of
positive length at every second up to its duration and two more pass intervals. The
threshold is 0, the two readings of a packet agree, the clock does not go back, and the
flow's bytes fit the counters. -/
structure LongLived (config : Config) (key : AddrPair) (c lastTimestamp : Int)
    (evs : List Event) : Prop where
  threshold : config.options.threshold = 0
  duration : 0 ≤ config.options.duration
  agree : ∀ ev ∈ evs, ev.Agrees
  ordered : (lastTimestamp :: evs.flatMap Event.readings).Pairwise (· ≤ ·)
  first : (flowPackets config key evs).head?.map Seen.t = some c
  active : Active c (c + config.options.duration + 2 * resolution + 1)
    (flowPackets config key evs)
  room : lengths ((flowPackets config key evs).map Seen.packet) < 2 ^ 64

theorem LongLived.outcome {config : Config} {key : AddrPair} {c lastTimestamp : Int}
    {evs : List Event} (h : LongLived config key c lastTimestamp evs) (pl : Platform)
    (sendLast connectedAt : Int) (connected : Bool) :
    Outcome pl key c [] (boot config sendLast lastTimestamp connectedAt connected) evs := by
  obtain ⟨hlast, hordered⟩ := List.pairwise_cons.mp h.ordered
  have hnone : hashFind (boot config sendLast lastTimestamp connectedAt connected).history.toHashType
      key = none := by
    rw [KeyedTable.hashFind_eq_none_iff, nodes_boot]
    intro n hn
    exact absurd hn List.not_mem_nil
  exact FlowRun.unseen ⟨h.threshold, h.duration, h.agree, hordered, h.active, h.room⟩ hnone h.first
    hlast

/-- **A long-lived connection is reported exactly if no pass finds it short.** Then its
record at the end is the one created at `c`, approved, with all the bytes of the flow.
With a duration of up to two minutes no pass does; with one that is longer by a pass
interval or more, some pass does in every run. -/
theorem reported_iff (pl : Platform) (config : Config)
    (sendLast lastTimestamp connectedAt : Int) (connected : Bool) (key : AddrPair) (c : Int)
    (evs : List Event) (h : LongLived config key c lastTimestamp evs) :
    (Reported key c ((flowPackets config key evs).map Seen.packet)
        (run (step pl) (boot config sendLast lastTimestamp connectedAt connected) evs)
      ↔ Along (step pl) (SparesFlow key)
        (boot config sendLast lastTimestamp connectedAt connected) evs)
    ∧ (config.options.duration ≤ checkAfterNSecs →
      Reported key c ((flowPackets config key evs).map Seen.packet)
        (run (step pl) (boot config sendLast lastTimestamp connectedAt connected) evs))
    ∧ (checkAfterNSecs + resolution ≤ config.options.duration →
      ¬ Reported key c ((flowPackets config key evs).map Seen.packet)
        (run (step pl) (boot config sendLast lastTimestamp connectedAt connected) evs)) := by
  have hout := h.outcome pl sendLast connectedAt connected
  exact ⟨hout.iff, fun hsmall => hout.iff.mpr (hout.small hsmall),
    fun hlarge hreported => hout.large hlarge (hout.iff.mp hreported)⟩

/-- A duration filter of `seconds` seconds. -/
def durationConfig (seconds : Nat) : Config :=
  { plainConfig with options := { plainConfig.options with duration := seconds } }

/-- The key of the flow of `tcpPacket`. -/
def tcpKey : AddrPair :=
  { protocol := 6, srcPort := 1000, src := 16777226, dstPort := 80, dst := 33558700 }

/-- A packet every second, from 10 on. -/
def steadyRun (n : Nat) : List Event := (List.range n).map fun i : Nat => packetAt (10 + i)

theorem flowPackets_steadyRun (seconds n : Nat) :
    flowPackets (durationConfig seconds) tcpKey (steadyRun n)
      = (List.range n).map fun i : Nat => ⟨10 + i, tcpPacket⟩ := by
  unfold flowPackets steadyRun
  rw [List.filterMap_map, ← List.filterMap_eq_map]
  rfl

/-- For the duration and 9 seconds more, the steady run is a long-lived connection. -/
theorem longLived_steadyRun {seconds : Nat} (h : seconds ≤ 1000) :
    LongLived (durationConfig seconds) tcpKey 10 0 (steadyRun (seconds + 10)) where
  threshold := rfl
  duration := Int.natCast_nonneg seconds
  agree := by
    intro ev hev
    obtain ⟨i, -, rfl⟩ := List.mem_map.mp hev
    rfl
  ordered := by
    have hreadings : (steadyRun (seconds + 10)).flatMap Event.readings
        = (List.range (seconds + 10)).flatMap fun i : Nat => [10 + (i : Int), 10 + i] := by
      unfold steadyRun
      rw [List.flatMap_map]
      rfl
    rw [hreadings, List.pairwise_cons]
    constructor
    · intro r hr
      obtain ⟨i, -, hi⟩ := List.mem_flatMap.mp hr
      simp at hi
      omega
    · rw [List.pairwise_flatMap]
      refine ⟨fun i _ => by simp, List.pairwise_lt_range.imp fun {i j} hij => ?_⟩
      simp
      omega
  first := by
    rw [flowPackets_steadyRun, List.range_succ_eq_map]
    rfl
  active := by
    intro t hc he
    change t ≤ 10 + (seconds : Int) + 2 * 4 + 1 at he
    have hpos : 0 < (ipLen tcpPacket).toNat := by decide
    refine ⟨⟨t, tcpPacket⟩, ?_, rfl, hpos⟩
    rw [flowPackets_steadyRun]
    refine List.mem_map.mpr ⟨(t - 10).toNat, List.mem_range.mpr (by omega), ?_⟩
    have ht : 10 + ((t - 10).toNat : Int) = t := by omega
    rw [ht]
  room := by
    have hlengths : ∀ n : Nat, lengths (((List.range n).map fun i : Nat =>
        (⟨10 + i, tcpPacket⟩ : Seen)).map Seen.packet) = 40 * n := by
      intro n
      have hlen : (ipLen tcpPacket).toNat = 40 := by decide
      simp [lengths, Function.comp_def, hlen, Nat.mul_comm]
    rw [flowPackets_steadyRun, hlengths]
    omega

theorem reported_iff_sixtySeconds :
    (Reported tcpKey 10 ((flowPackets (durationConfig 60) tcpKey (steadyRun 70)).map Seen.packet)
        (run (step lp64) (boot (durationConfig 60) 0 0 0 true) (steadyRun 70))
      ↔ Along (step lp64) (SparesFlow tcpKey) (boot (durationConfig 60) 0 0 0 true) (steadyRun 70))
    ∧ ((durationConfig 60).options.duration ≤ checkAfterNSecs →
      Reported tcpKey 10 ((flowPackets (durationConfig 60) tcpKey (steadyRun 70)).map Seen.packet)
        (run (step lp64) (boot (durationConfig 60) 0 0 0 true) (steadyRun 70)))
    ∧ (checkAfterNSecs + resolution ≤ (durationConfig 60).options.duration →
      ¬ Reported tcpKey 10 ((flowPackets (durationConfig 60) tcpKey (steadyRun 70)).map Seen.packet)
        (run (step lp64) (boot (durationConfig 60) 0 0 0 true) (steadyRun 70))) :=
  reported_iff lp64 (durationConfig 60) 0 0 0 true tcpKey 10 (steadyRun 70)
    (longLived_steadyRun (by decide))

/-- With a duration of 300 seconds, a connection with a packet every second for 310
seconds is not reported. -/
theorem reported_fails :
    LongLived (durationConfig 300) tcpKey 10 0 (steadyRun 310) ∧
      ¬ Reported tcpKey 10
        ((flowPackets (durationConfig 300) tcpKey (steadyRun 310)).map Seen.packet)
        (run (step lp64) (boot (durationConfig 300) 0 0 0 true) (steadyRun 310)) := by
  have hlong : LongLived (durationConfig 300) tcpKey 10 0 (steadyRun 310) :=
    longLived_steadyRun (by decide)
  have hout := hlong.outcome lp64 0 0 true
  exact ⟨hlong, fun hreported => hout.large (by decide) (hout.iff.mp hreported)⟩

end Dotqoo.Capture
