import Dotqoo.Capture.Tick

/-!
# A packet and its reply

`handle_ip_packet` decides for every packet on its own which of its two ends is
the `src` of the record. A conversation is one record only if the packet and its
reply come to the same decision, the reply's `flip` being the opposite of the
packet's.

Most of the cascade is symmetric: the hardware direction, the net filter and the
interface address see the same thing from the other side. What is left are the
undecided packets. For those the source looks for a multicast destination: it applies
`IN_MULTICAST` to `ip_dst.s_addr`. The macro expects host order and is given
network order, so on a little-endian host it tests the last octet of the address
and not the first. An address such as 192.168.7.230 passes for multicast, and
the packet and its reply are then read differently.

`sameConversation_iff` says when that does harm: the two orientations differ
(`Misread`), and not both of the records they lead to are dropped by the tests
on the oriented pair.
-/

namespace Dotqoo.Capture

open Dotqoo.Table

/-- `p'` answers `p`: the same protocol, addresses exchanged, and ports where there are any. -/
structure IsReply (p p' : Packet) : Prop where
  protocol : ipP p' = ipP p
  src : ipSrc p' = ipDst p
  dst : ipDst p' = ipSrc p
  sport : usesPorts p = true → thSport p' = thDport p
  dport : usesPorts p = true → thDport p' = thSport p

/-- The hardware addresses of a packet and its reply: us and them, them and us,
or unknown for both. -/
def OppositeHw (hw hw' : Int) : Prop :=
  (hw = 1 ∧ hw' = 0) ∨ (hw = 0 ∧ hw' = 1) ∨ (hw = -1 ∧ hw' = -1)

/-- The key a packet is accounted under, if it is (the block list aside). -/
def keyOf (c : Config) (iptr : Packet) (hwDir : Int) : Option AddrPair :=
  (flowOf c iptr hwDir).map Flow.key

/-- Two packets, from `src` and from `src'`, are accounted as one conversation:
both or neither, under one key, and one of them as sent, the other as received. -/
def SameRecord (src src' : UInt32) : Option AddrPair → Option AddrPair → Prop
  | none, none => True
  | some key, some key' => key = key' ∧ (src = key.src ↔ src' ≠ key'.src)
  | _, _ => False

instance (src src' : UInt32) : ∀ k k' : Option AddrPair, Decidable (SameRecord src src' k k')
  | none, none => isTrue trivial
  | some key, some key' =>
    inferInstanceAs (Decidable (key = key' ∧ (src = key.src ↔ src' ≠ key'.src)))
  | none, some _ => isFalse id
  | some _, none => isFalse id

/-- The packet and its reply are one conversation. -/
def SameConversation (c : Config) (p p' : Packet) (hw hw' : Int) : Prop :=
  SameRecord (ipSrc p) (ipSrc p') (keyOf c p hw) (keyOf c p' hw')

/-- The `flip` that the cascade chooses. -/
def flipOf (c : Config) (iptr : Packet) (hwDir : Int) : Option Bool :=
  (orient c iptr hwDir).map Prod.fst

theorem keyOf_eq (c : Config) (iptr : Packet) (hwDir : Int) :
    keyOf c iptr hwDir
      = (flipOf c iptr hwDir).bind fun flip => portFilter c (orientedPair iptr flip) := by
  unfold keyOf flipOf flowOf
  cases orient c iptr hwDir with
  | none => rfl
  | some fd =>
    obtain ⟨flip, direction⟩ := fd
    simp only [Option.map_some, Option.bind_some]
    cases portFilter c (orientedPair iptr flip) <;> rfl

/-- The ports as `assign_addr_pair` sees them are exchanged, for any protocol. -/
theorem IsReply.ports {p p' : Packet} (h : IsReply p p') :
    srcPortOf p' = dstPortOf p ∧ dstPortOf p' = srcPortOf p := by
  have hports : usesPorts p' = usesPorts p := by
    unfold usesPorts
    rw [h.protocol]
  unfold srcPortOf dstPortOf
  rw [hports]
  by_cases hu : usesPorts p = true
  · rw [if_pos hu, if_pos hu, if_pos hu, if_pos hu]
    exact ⟨h.sport hu, h.dport hu⟩
  · rw [if_neg hu, if_neg hu, if_neg hu, if_neg hu]
    exact ⟨rfl, rfl⟩

/-- The reply, flipped, is the packet unflipped. -/
theorem IsReply.orientedPair_eq {p p' : Packet} (h : IsReply p p') (flip : Bool) :
    orientedPair p' flip = orientedPair p (!flip) := by
  obtain ⟨hsrc, hdst⟩ := h.ports
  cases flip <;>
    simp [orientedPair, assignAddrPair, hsrc, hdst, h.protocol, h.src, h.dst]

/-- The `src` of an oriented pair. -/
theorem orientedPair_src (p : Packet) (flip : Bool) :
    (orientedPair p flip).src = if flip then ipDst p else ipSrc p := by
  cases flip <;> rfl

/-- The source of a pair tells its flip. -/
theorem flip_eq_of_src {p : Packet} {f f' : Bool} (hne : ipSrc p ≠ ipDst p)
    (h : (if f then ipDst p else ipSrc p) = if f' then ipDst p else ipSrc p) : f = f' := by
  cases f with
  | false =>
    cases f' with
    | false => rfl
    | true => exact absurd h hne
  | true =>
    cases f' with
    | false => exact absurd h.symm hne
    | true => rfl

/-- The conversation in terms of the two flips, the reply's seen from the
packet: they agree, or whatever they lead to is dropped. -/
theorem sameConversation_flips {c : Config} {p p' : Packet} {hw hw' : Int} {F F' : Option Bool}
    (hne : ipSrc p ≠ ipDst p) (hr : IsReply p p') (hF : flipOf c p hw = F)
    (hF' : (flipOf c p' hw').map not = F') :
    SameConversation c p p' hw hw' ↔ F = F' ∨
      ((∀ f, F = some f → DropsPair c (orientedPair p f))
        ∧ (∀ f, F' = some f → DropsPair c (orientedPair p f))) := by
  have hk : keyOf c p hw = F.bind fun f => portFilter c (orientedPair p f) := by
    rw [keyOf_eq, hF]
  have hk' : keyOf c p' hw' = F'.bind fun f => portFilter c (orientedPair p f) := by
    rw [keyOf_eq, ← hF']
    cases flipOf c p' hw' with
    | none => rfl
    | some f => simp [hr.orientedPair_eq]
  rw [SameConversation, hk, hk', hr.src]
  simp only [← portFilter_eq_none_iff]
  by_cases hFF : F = F'
  · -- one pair on both sides, with one of the two ends as its source
    subst hFF
    refine ⟨fun _ => Or.inl rfl, fun _ => ?_⟩
    cases hg : F.bind fun f => portFilter c (orientedPair p f) with
    | none => trivial
    | some key =>
      obtain ⟨f, -, hf⟩ := Option.bind_eq_some_iff.mp hg
      have hsrc := (portFilter_some hf).1
      rw [orientedPair_src] at hsrc
      refine ⟨rfl, ?_⟩
      rw [hsrc]
      cases f with
      | false => simp [hne.symm]
      | true => simp [hne]
  · -- different pairs, or one side without any: both must be dropped
    have hdrop : ∀ G : Option Bool, (G.bind fun f => portFilter c (orientedPair p f)) = none ↔
        ∀ f, G = some f → portFilter c (orientedPair p f) = none := by
      intro G
      cases G <;> simp
    rw [← hdrop F, ← hdrop F']
    refine ⟨fun h => Or.inr ?_, fun h => ?_⟩
    · cases hg : F.bind fun f => portFilter c (orientedPair p f) with
      | none =>
        cases hg' : F'.bind fun f => portFilter c (orientedPair p f) with
        | none => exact ⟨rfl, rfl⟩
        | some key' =>
          rw [hg, hg'] at h
          exact absurd h id
      | some key =>
        cases hg' : F'.bind fun f => portFilter c (orientedPair p f) with
        | none =>
          rw [hg, hg'] at h
          exact absurd h id
        | some key' =>
          -- one key from two flips would have both ends as its source
          rw [hg, hg'] at h
          obtain ⟨f, hfF, hf⟩ := Option.bind_eq_some_iff.mp hg
          obtain ⟨f', hfF', hf'⟩ := Option.bind_eq_some_iff.mp hg'
          have hsrc := (portFilter_some hf).1
          have hsrc' := (portFilter_some hf').1
          rw [orientedPair_src] at hsrc hsrc'
          rw [← h.1, hsrc] at hsrc'
          exact absurd (by rw [hfF, hfF', flip_eq_of_src hne hsrc']) hFF
    · rcases h with h | ⟨h, h'⟩
      · exact absurd h hFF
      · rw [h, h']
        trivial

/-! ## The cascade, seen from both sides -/

/-- Neither the net filter, the hardware direction nor the interface address
says which end is ours. -/
def Undecided (c : Config) (p : Packet) (hw : Int) : Prop :=
  c.options.netfilter = false ∧ hw ≠ 1 ∧ hw ≠ 0
    ∧ (c.haveIpAddr && ipAddrMatch c (ipSrc p)) = false
    ∧ (c.haveIpAddr && ipAddrMatch c (ipDst p)) = false

/-- The flip of an undecided packet. -/
def guessFlip (c : Config) (p : Packet) : Option Bool :=
  if inMulticast (ipDst p) then some true
  else if c.options.promiscuousButChoosy then none
  else some (decide (ipSrc p < ipDst p))

theorem flipOf_undecided {c : Config} {p : Packet} {hw : Int} (h : Undecided c p hw) :
    flipOf c p hw = guessFlip c p := by
  obtain ⟨hnf, h1, h0, hs, hd⟩ := h
  unfold flipOf orient guessFlip
  rw [if_pos hnf, if_neg h1, if_neg h0, if_neg (by simp [hs]), if_neg (by simp [hd])]
  split
  next => rfl
  next =>
    split
    next => rfl
    next =>
      by_cases hlt : ipSrc p < ipDst p
      · simp [hlt]
      · simp [hlt]

theorem Undecided.reply {c : Config} {p p' : Packet} {hw hw' : Int} (h : Undecided c p hw)
    (hr : IsReply p p') (ho : OppositeHw hw hw') : Undecided c p' hw' := by
  obtain ⟨hnf, h1, h0, hs, hd⟩ := h
  refine ⟨hnf, ?_, ?_, by rw [hr.src]; exact hd, by rw [hr.dst]; exact hs⟩
  all_goals
    rcases ho with ho | ho | ho
    · exact absurd ho.1 h1
    · exact absurd ho.1 h0
    · omega

/-- Where something decides, it decides the same way for the reply. -/
theorem flips_of_decided {c : Config} {p p' : Packet} {hw hw' : Int} (hne : ipSrc p ≠ ipDst p)
    (hr : IsReply p p') (ho : OppositeHw hw hw') (h : ¬ Undecided c p hw) :
    (flipOf c p' hw').map not = flipOf c p hw := by
  by_cases hnf : c.options.netfilter = false
  · rcases ho with ⟨rfl, rfl⟩ | ⟨rfl, rfl⟩ | ⟨rfl, rfl⟩
    · simp [flipOf, orient, hnf]
    · simp [flipOf, orient, hnf]
    · -- unknown hardware addresses: one end is the interface, and only one
      by_cases hs : (c.haveIpAddr && ipAddrMatch c (ipSrc p)) = true
      · have hd : ipAddrMatch c (ipDst p) = false := by
          simp only [ipAddrMatch, Bool.and_eq_true, beq_iff_eq, beq_eq_false_iff_ne] at hs ⊢
          exact fun he => hne (hs.2.trans he.symm)
        simp only [Bool.and_eq_true] at hs
        simp [flipOf, orient, hnf, hr.src, hr.dst, hs.1, hs.2, hd]
      · by_cases hd : (c.haveIpAddr && ipAddrMatch c (ipDst p)) = true
        · simp only [Bool.and_eq_true] at hd
          have hs' : ipAddrMatch c (ipSrc p) = false := by simpa [hd.1] using hs
          simp [flipOf, orient, hnf, hr.src, hd.1, hd.2, hs']
        · exact absurd ⟨hnf, by omega, by omega, by simpa using hs, by simpa using hd⟩ h
  · unfold flipOf orient
    rw [if_neg hnf, if_neg hnf, hr.src, hr.dst]
    cases hs : inFilterNet c.options (ipSrc p) <;> cases hd : inFilterNet c.options (ipDst p) <;>
      simp

/-- The two guesses differ: a multicast reading of an address on either side
meets a different reading on the other. -/
def Misread (c : Config) (p : Packet) : Prop :=
  (inMulticast (ipDst p) = true ∧ inMulticast (ipSrc p) = true) ∨
  ((inMulticast (ipDst p) = true ∨ inMulticast (ipSrc p) = true)
    ∧ c.options.promiscuousButChoosy = true) ∨
  (inMulticast (ipDst p) = true ∧ ipDst p < ipSrc p) ∨
  (inMulticast (ipSrc p) = true ∧ ipSrc p < ipDst p)

/-- What the guesses come to, for the packet and for its reply. -/
theorem guessFlip_iff {c : Config} {p p' : Packet} (hne : ipSrc p ≠ ipDst p) (hr : IsReply p p') :
    guessFlip c p = (guessFlip c p').map not ↔ ¬ Misread c p := by
  have hord : ipSrc p < ipDst p ↔ ¬ ipDst p < ipSrc p := by
    rw [UInt32.lt_iff_toNat_lt, UInt32.lt_iff_toNat_lt]
    have : (ipSrc p).toNat ≠ (ipDst p).toNat := fun he => hne (UInt32.toNat_inj.mp he)
    omega
  unfold guessFlip Misread
  rw [hr.src, hr.dst]
  by_cases hlt : ipDst p < ipSrc p
  · have hlt' : ¬ ipSrc p < ipDst p := fun hc => hord.mp hc hlt
    cases hm : inMulticast (ipDst p) <;> cases hs : inMulticast (ipSrc p) <;>
      cases hch : c.options.promiscuousButChoosy <;> simp [hlt, hlt']
  · have hlt' : ipSrc p < ipDst p := hord.mpr hlt
    cases hm : inMulticast (ipDst p) <;> cases hs : inMulticast (ipSrc p) <;>
      cases hch : c.options.promiscuousButChoosy <;> simp [hlt, hlt']

/-- A misread packet, if it is accounted at all, is accounted under its
destination. -/
theorem guessFlip_misread {c : Config} {p : Packet} (h : Misread c p) :
    guessFlip c p = if inMulticast (ipDst p) = true ∨ c.options.promiscuousButChoosy = false
      then some true else none := by
  unfold guessFlip
  cases hm : inMulticast (ipDst p) with
  | true => simp
  | false =>
    cases hch : c.options.promiscuousButChoosy with
    | true => simp
    | false =>
      -- only the source reads as multicast, and it is the smaller address
      rcases h with h | h | h | h
      · exact absurd (hm.symm.trans h.1) (by simp)
      · exact absurd (hch.symm.trans h.2) (by simp)
      · exact absurd (hm.symm.trans h.1) (by simp)
      · simp [h.2]

/-- A packet is misread exactly if its reply is. -/
theorem Misread.reply {c : Config} {p p' : Packet} (h : Misread c p) (hr : IsReply p p') :
    Misread c p' := by
  unfold Misread
  rw [hr.src, hr.dst]
  rcases h with h | h | h | h
  · exact Or.inl h.symm
  · exact Or.inr (Or.inl ⟨h.1.symm, h.2⟩)
  · exact Or.inr (Or.inr (Or.inr h))
  · exact Or.inr (Or.inr (Or.inl h))

/-- **When a packet and its reply are one record.** Always, unless the packet is
undecided and misread; and then only if the tests on the oriented pair drop
what either of the two would be accounted under. -/
theorem sameConversation_iff (c : Config) (p p' : Packet) (hw hw' : Int)
    (hne : ipSrc p ≠ ipDst p) (hr : IsReply p p') (ho : OppositeHw hw hw') :
    SameConversation c p p' hw hw' ↔
      (Undecided c p hw → Misread c p →
        (inMulticast (ipDst p) = true ∨ c.options.promiscuousButChoosy = false →
          DropsPair c (orientedPair p true))
        ∧ (inMulticast (ipSrc p) = true ∨ c.options.promiscuousButChoosy = false →
          DropsPair c (orientedPair p false))) := by
  by_cases hu : Undecided c p hw
  -- both sides guess
  · rw [sameConversation_flips hne hr (flipOf_undecided hu)
      (congrArg (Option.map not) (flipOf_undecided (hu.reply hr ho))), guessFlip_iff hne hr]
    by_cases hm : Misread c p
    · have hdst : (∀ f, guessFlip c p = some f → DropsPair c (orientedPair p f)) ↔
          (inMulticast (ipDst p) = true ∨ c.options.promiscuousButChoosy = false →
            DropsPair c (orientedPair p true)) := by
        rw [guessFlip_misread hm]
        split
        next h => simp [h]
        next h => simp [h]
      have hsrc : (∀ f, (guessFlip c p').map not = some f → DropsPair c (orientedPair p f)) ↔
          (inMulticast (ipSrc p) = true ∨ c.options.promiscuousButChoosy = false →
            DropsPair c (orientedPair p false)) := by
        rw [guessFlip_misread (hm.reply hr), hr.dst]
        split
        next h => simp [h]
        next h => simp [h]
      rw [hdst, hsrc]
      refine ⟨fun h _ _ => ?_, fun h => Or.inr (h hu hm)⟩
      rcases h with h | h
      · exact absurd hm h
      · exact h
    · exact ⟨fun _ _ hmis => absurd hmis hm, fun _ => Or.inl hm⟩
  · rw [sameConversation_flips hne hr rfl (flips_of_decided hne hr ho hu)]
    exact ⟨fun _ hund => absurd hund hu, fun _ => Or.inl rfl⟩

/-- The answer to `tcpPacket`. -/
def tcpReply : Packet :=
  [0x45, 0, 0, 60, 0, 0, 0, 0, 64, 6, 0, 0, 172, 16, 0, 2, 10, 0, 0, 1, 0, 80, 0x03, 0xe8]

theorem sameConversation_iff_tcp :
    SameConversation plainConfig tcpPacket tcpReply 1 0 ↔
      (Undecided plainConfig tcpPacket 1 → Misread plainConfig tcpPacket →
        (inMulticast (ipDst tcpPacket) = true ∨ plainConfig.options.promiscuousButChoosy = false →
          DropsPair plainConfig (orientedPair tcpPacket true))
        ∧ (inMulticast (ipSrc tcpPacket) = true ∨ plainConfig.options.promiscuousButChoosy = false →
          DropsPair plainConfig (orientedPair tcpPacket false))) :=
  sameConversation_iff plainConfig tcpPacket tcpReply 1 0 (by decide)
    ⟨by decide, by decide, by decide, by decide, by decide⟩ (Or.inl ⟨rfl, rfl⟩)

/-- 40 bytes of TCP from 10.0.0.240:1000 to 192.168.7.230:80. -/
def lastOctetPacket : Packet :=
  [0x45, 0, 0, 40, 0, 0, 0, 0, 64, 6, 0, 0, 10, 0, 0, 240, 192, 168, 7, 230, 0x03, 0xe8, 0, 80]

/-- And the answer to it. -/
def lastOctetReply : Packet :=
  [0x45, 0, 0, 60, 0, 0, 0, 0, 64, 6, 0, 0, 192, 168, 7, 230, 10, 0, 0, 240, 0, 80, 0x03, 0xe8]

/-- Neither address is of class D, by its first octet, and the two packets of
one connection become two records. -/
theorem sameConversation_fails :
    IsReply lastOctetPacket lastOctetReply
      ∧ OppositeHw (-1) (-1)
      ∧ ipSrc lastOctetPacket ≠ ipDst lastOctetPacket
      ∧ byteAt lastOctetPacket 12 &&& 0xf0 ≠ 0xe0
      ∧ byteAt lastOctetPacket 16 &&& 0xf0 ≠ 0xe0
      ∧ (keyOf plainConfig lastOctetPacket (-1)).map AddrPair.src = some (ipDst lastOctetPacket)
      ∧ (keyOf plainConfig lastOctetReply (-1)).map AddrPair.src = some (ipSrc lastOctetPacket)
      ∧ ¬ SameConversation plainConfig lastOctetPacket lastOctetReply (-1) (-1) := by
  refine ⟨⟨by decide, by decide, by decide, by decide, by decide⟩, Or.inr (Or.inr ⟨rfl, rfl⟩), ?_⟩
  unfold SameConversation
  decide +kernel

end Dotqoo.Capture
