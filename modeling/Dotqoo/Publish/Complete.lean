import Dotqoo.Capture.Tick

/-!
# When a message is complete

`tick` takes the size of a message from one walk and its contents from another:
`history_rotate` counts the approved records while it prunes the table, then
`construct_MQTT_msg` allocates `struct_size * n` bytes and walks the table
again. A message is `Complete` when the two agree: the copies fit, the cursor
ends at the end of the block, and the slots are the approved records of the
table in walk order, each once.

The second walk always copies the right records (`encodeTable_walk`). The count
is right except for one thing, the read of `d->approval` after `free(d)`: a
released record whose memory reads non-zero there is counted. The message then
has slots that nothing was copied into. `messageOf_complete_iff` says that this
is the only way a message can be incomplete.
-/

namespace Dotqoo.Capture

open Dotqoo.Table Dotqoo.Lib

/-- The message `msg`, built for a count of `n`, holds the table `h`: it fits,
it is full, and its slots are the approved records in walk order, each once. -/
structure Complete (pl : Platform) (around : AddrPair → Neighbours) (n : Nat) (h : History)
    (msg : Message) : Prop where
  fits : msg.overrun = false
  full : msg.cursor = pl.structSize * n
  slots : msg.slots = approvedOf (hashWalk h.toHashType)
  count : msg.slots.length = n
  once : (msg.slots.map HashNode.key).Nodup
  bytes : msg.bytes = msg.slots.flatMap fun d => recordBytes pl (around d.key) d

/-- A message built for the right count is complete. -/
theorem complete_of_count {pl : Platform} (hpl : pl.LongOk) {around : AddrPair → Neighbours}
    {n : Nat} {h : History} (hn : (approvedOf h.nodes).length = n) :
    Complete pl around n h (messageOf pl around n h) := by
  obtain ⟨hslots, hcursor⟩ := encodeTable_walk pl around n h
  have hfill := encodeTable_filled hpl around (Nat.le_of_eq hn)
  have hblock : (encodeTable pl around n h).block = tableBytes pl around h.nodes := by
    subst hn
    exact encodeTable_exact hpl around h
  refine ⟨hfill.overrun, ?_, ?_, ?_, ?_, ?_⟩
  · show (encodeTable pl around n h).current = _
    rw [hcursor, length_tableBytes hpl, hn]
  · show (encodeTable pl around n h).slots = _
    rw [hslots, hashWalk_eq]
  · show (encodeTable pl around n h).slots.length = n
    rw [hslots, hn]
  · show ((encodeTable pl around n h).slots.map HashNode.key).Nodup
    rw [hslots]
    exact h.unique.sublist (List.filter_sublist.map _)
  · show (encodeTable pl around n h).block = (encodeTable pl around n h).slots.flatMap _
    rw [hblock, hslots]
    rfl

/-- The count of a pass is the number of approved records that stay exactly if
no released record reads as approved. -/
theorem size_historyRotate_iff {o : Options} {t : Int} {stale : Node → Bool} {h : History} :
    (approvedOf (historyRotate o t stale h).history.nodes).length = (historyRotate o t stale h).size
      ↔ ∀ d ∈ removedOf o t h.nodes, stale d = false := by
  obtain ⟨-, hsize, hfreed⟩ := historyRotate_spec o t stale h
  rw [hfreed] at hsize
  have hcount : (approvedOf (historyRotate o t stale h).history.nodes).length
      = (historyRotate o t stale h).size ↔ ((removedOf o t h.nodes).filter stale).length = 0 := by
    omega
  rw [hcount, List.length_eq_zero_iff, List.filter_eq_nil_iff]
  exact forall₂_congr fun d _ => by rw [Bool.not_eq_true]

/-- **A message is complete exactly if no released record reads as approved.**
`hsize` is the range in which the product `struct_size * n` is exact in C. -/
theorem messageOf_complete_iff {pl : Platform} (hpl : pl.LongOk) (around : AddrPair → Neighbours)
    (o : Options) (t : Int) (stale : Node → Bool) (h : History) (m : Mqtt)
    (hready : m.Ready (historyRotate o t stale h).size)
    (_hsize : pl.structSize * (historyRotate o t stale h).size < 2 ^ 31) :
    ∃ msg, (constructMqttMsg pl around (historyRotate o t stale h).size
          (historyRotate o t stale h).history m).2.data = .live msg
      ∧ (Complete pl around (historyRotate o t stale h).size
            (historyRotate o t stale h).history msg
          ↔ ∀ d ∈ h.nodes, d.record.approval = false →
              (isShortConnection o d.record t || isLowTrafficConnection o d.record t) = true →
              stale d = false) := by
  refine ⟨messageOf pl around (historyRotate o t stale h).size (historyRotate o t stale h).history,
    ?_, ?_⟩
  · rw [constructMqttMsg_ready hready]
    rfl
  · have hcond : (∀ d ∈ h.nodes, d.record.approval = false →
        (isShortConnection o d.record t || isLowTrafficConnection o d.record t) = true →
        stale d = false) ↔ ∀ d ∈ removedOf o t h.nodes, stale d = false := by
      refine forall_congr' fun d => ?_
      rw [mem_removedOf]
      exact ⟨fun hd hm => hd hm.1 hm.2.1 hm.2.2, fun hd h1 h2 h3 => hd ⟨h1, h2, h3⟩⟩
    rw [hcond, ← size_historyRotate_iff]
    refine ⟨fun hc => ?_, complete_of_count hpl⟩
    -- the slots are the approved records, so their number is the count
    have hcount := hc.count
    rw [hc.slots, hashWalk_eq] at hcount
    exact hcount

/-! A box with a threshold of 50 bytes has seen two packets of one connection
and one of another; the second is removed when it has been quiet for a minute. -/

/-- The packet of the other connection, from 10.0.0.1:1001. -/
def otherPacket : Packet := tcpPacket.set 21 0xe9

/-- The table of that box. -/
def quietTable : History :=
  (run (step lp64)
    (boot { plainConfig with options := { plainConfig.options with threshold := 50 } } 0 0 0 true)
    [packetAt 10, packetAt 11,
      .packet { tick := plainEnv none, t := 12, created := 12, i := 0, wild := false }
        otherPacket 1]).history

/-- Its options. -/
def quietOptions : Options := { plainConfig.options with threshold := 50 }

theorem messageOf_complete_iff_quietTable :
    ∃ msg, (constructMqttMsg lp64 (fun _ => ⟨0, 0⟩)
          (historyRotate quietOptions 100 (fun _ => false) quietTable).size
          (historyRotate quietOptions 100 (fun _ => false) quietTable).history
          (initMqtt true 0)).2.data = .live msg
      ∧ (Complete lp64 (fun _ => ⟨0, 0⟩)
            (historyRotate quietOptions 100 (fun _ => false) quietTable).size
            (historyRotate quietOptions 100 (fun _ => false) quietTable).history msg
          ↔ ∀ d ∈ quietTable.nodes, d.record.approval = false →
              (isShortConnection quietOptions d.record 100
                || isLowTrafficConnection quietOptions d.record 100) = true →
              (fun _ : Node => false) d = false) :=
  messageOf_complete_iff (Or.inr rfl) (fun _ => ⟨0, 0⟩) quietOptions 100 (fun _ => false) quietTable
    (initMqtt true 0) ⟨by decide, by decide, by decide +kernel⟩ (by decide +kernel)

/-- Freed memory that reads non-zero: the pass counts two records where one
stays, and the message is not complete. -/
theorem messageOf_incomplete :
    (historyRotate quietOptions 100 (fun _ => true) quietTable).size = 2
      ∧ (initMqtt true 0).Ready (historyRotate quietOptions 100 (fun _ => true) quietTable).size
      ∧ (∀ msg, (constructMqttMsg lp64 (fun _ => ⟨0, 0⟩)
            (historyRotate quietOptions 100 (fun _ => true) quietTable).size
            (historyRotate quietOptions 100 (fun _ => true) quietTable).history
            (initMqtt true 0)).2.data = .live msg →
          msg.cursor = 54
            ∧ ¬ Complete lp64 (fun _ => ⟨0, 0⟩)
              (historyRotate quietOptions 100 (fun _ => true) quietTable).size
              (historyRotate quietOptions 100 (fun _ => true) quietTable).history msg) := by
  have htwo : (historyRotate quietOptions 100 (fun _ => true) quietTable).size = 2 := by
    decide +kernel
  have hready : (initMqtt true 0).Ready
      (historyRotate quietOptions 100 (fun _ => true) quietTable).size :=
    ⟨by decide, by decide, by rw [htwo]; decide⟩
  refine ⟨htwo, hready, fun msg hmsg => ?_⟩
  rw [constructMqttMsg_ready hready] at hmsg
  obtain rfl : _ = msg := Buffer.live.inj hmsg
  have hcursor : (messageOf lp64 (fun _ => ⟨0, 0⟩)
      (historyRotate quietOptions 100 (fun _ => true) quietTable).size
      (historyRotate quietOptions 100 (fun _ => true) quietTable).history).cursor = 54 := by
    decide +kernel
  refine ⟨hcursor, fun hc => ?_⟩
  have hfull := hc.full
  rw [hcursor, htwo] at hfull
  exact absurd hfull (by simp [Platform.structSize, lp64])

end Dotqoo.Capture
