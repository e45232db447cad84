import Dotqoo.Flow.PortFilter
import Dotqoo.Link.Ipv6

/-!
# Fragments

Only the first fragment of a datagram carries the TCP or UDP header. `struct ip`
has the field `ip_off`, and `IP_OFFMASK` for the offset in it; no code reads
either. `assign_addr_pair` takes the first four bytes behind the IP header for
the two ports of every TCP or UDP packet, so in a later fragment it is the
payload that names the ports, and with them the record.

Nothing else is up to the payload: the block list, the orientation, the length
and the side of a record look at the IP header alone. `fragments_alike_iff` says
exactly when the payload makes no difference.
-/

namespace Dotqoo.Capture

open Dotqoo.Table Dotqoo.Lib Dotqoo.Link

/-- `ntohs(iptr->ip_off)`. -/
def ipOff (iptr : Packet) : UInt16 := ntohsAt iptr 6

/-- `IP_OFFMASK`. -/
def ipOffmask : UInt16 := 0x1fff

/-- Two later fragments of TCP or UDP datagrams over IPv4, with one header. -/
structure FragmentPair where
  first : Packet
  second : Packet
  version : ipV first = 4
  headerLen : 5 ≤ ipHl first
  header : ∀ k < ipHl first * 4, byteAt second k = byteAt first k
  ports : usesPorts first = true
  offset : ipOff first &&& ipOffmask ≠ 0

/-- The packets are treated alike: both are dropped, or both are accounted under
one key in one direction, with one length and on one side of the record. -/
def FragmentPair.Alike (fp : FragmentPair) (c : Config) (e : PacketEnv) (hwDir : Int) : Prop :=
  (acceptedFlow c e fp.first hwDir = none ∧ acceptedFlow c e fp.second hwDir = none) ∨
    ∃ f, acceptedFlow c e fp.first hwDir = some f ∧ acceptedFlow c e fp.second hwDir = some f
      ∧ ipLen fp.first = ipLen fp.second
      ∧ (ipSrc fp.first = f.key.src ↔ ipSrc fp.second = f.key.src)

/-- Two flows that differ at most in their ports. -/
def Flow.SameButPorts (f f' : Flow) : Prop :=
  f.direction = f'.direction ∧ f.key.src = f'.key.src ∧ f.key.dst = f'.key.dst
    ∧ f.key.protocol = f'.key.protocol

/-- The test of the port list stops the pair. -/
def ListedPair (c : Config) (ap : AddrPair) : Prop :=
  ap.dstPort < dynamicPort ∧ (inPortList c.portList portListLen ap.srcPort = true
    ∨ inPortList c.portList portListLen ap.dstPort = true)

/-- A destination port that stands as 0 in the key. -/
def Erased (port : UInt16) : Prop := dynamicPort ≤ port ∨ port = 0

/-- The ports of two pairs lead to the same: both pairs are stopped by the port
list, or neither is, the source ports are equal, and the destination ports are
equal or both erased. -/
def PortsAlike (c : Config) (ap ap' : AddrPair) : Prop :=
  (ListedPair c ap ∧ ListedPair c ap') ∨
    (¬ ListedPair c ap ∧ ¬ ListedPair c ap' ∧ ap.srcPort = ap'.srcPort
      ∧ (ap.dstPort = ap'.dstPort ∨ (Erased ap.dstPort ∧ Erased ap'.dstPort)))

/-- The payload has no say: the packets are blocked or get no direction, or the
source they are oriented to is the router, or what stands in place of their
ports leads to the same. -/
def FragmentPair.Indifferent (fp : FragmentPair) (c : Config) (e : PacketEnv) (hwDir : Int) :
    Prop :=
  blocked c.options (ipP fp.first) e.i e.wild = true ∨
    ∀ flip direction, orient c fp.first hwDir = some (flip, direction) →
      (orientedPair fp.first flip).src = routerAddr
        ∨ PortsAlike c (orientedPair fp.first flip) (orientedPair fp.second flip)

/-! ## What the header decides -/

namespace FragmentPair

variable (fp : FragmentPair)

theorem byteAt_eq {k : Nat} (hk : k < 20) : byteAt fp.second k = byteAt fp.first k := by
  have hlen := fp.headerLen
  exact fp.header k (by omega)

theorem ntohsAt_eq {off : Nat} (hoff : off + 1 < 20) :
    ntohsAt fp.second off = ntohsAt fp.first off := by
  rw [ntohsAt, fp.byteAt_eq (by omega : off < 20), fp.byteAt_eq hoff, ntohsAt]

theorem sAddrAt_eq {off : Nat} (hoff : off + 3 < 20) :
    sAddrAt fp.second off = sAddrAt fp.first off := by
  rw [sAddrAt, fp.byteAt_eq (by omega : off < 20), fp.byteAt_eq (by omega : off + 1 < 20),
    fp.byteAt_eq (by omega : off + 2 < 20), fp.byteAt_eq hoff, sAddrAt]

theorem ipP_eq : ipP fp.second = ipP fp.first := fp.byteAt_eq (by omega)

theorem ipLen_eq : ipLen fp.second = ipLen fp.first := fp.ntohsAt_eq (by omega)

theorem ipSrc_eq : ipSrc fp.second = ipSrc fp.first := fp.sAddrAt_eq (by omega)

theorem ipDst_eq : ipDst fp.second = ipDst fp.first := fp.sAddrAt_eq (by omega)

/-- The orientation looks at the addresses alone. -/
theorem orient_eq (c : Config) (hwDir : Int) :
    orient c fp.second hwDir = orient c fp.first hwDir := by
  unfold orient
  rw [fp.ipSrc_eq, fp.ipDst_eq]

/-- The oriented pairs differ at most in their ports. -/
theorem orientedPair_eq (flip : Bool) :
    (orientedPair fp.second flip).src = (orientedPair fp.first flip).src
      ∧ (orientedPair fp.second flip).dst = (orientedPair fp.first flip).dst
      ∧ (orientedPair fp.second flip).protocol = (orientedPair fp.first flip).protocol := by
  cases flip <;>
    simp [orientedPair, assignAddrPair, fp.ipP_eq, fp.ipSrc_eq, fp.ipDst_eq]

end FragmentPair

/-! ## What the ports decide -/

/-- A pair that is not dropped keeps its ports, but for an erased one. -/
theorem portFilter_of_not_drops {c : Config} {ap : AddrPair} (h : ¬ DropsPair c ap) :
    portFilter c ap
      = some { ap with dstPort := if dynamicPort ≤ ap.dstPort then 0 else ap.dstPort } := by
  unfold DropsPair at h
  obtain ⟨hrouter, hlist⟩ := not_or.mp h
  unfold portFilter
  rw [if_neg hrouter]
  by_cases hdyn : dynamicPort ≤ ap.dstPort
  · rw [if_pos hdyn, if_pos hdyn]
  · rw [if_neg hdyn, if_neg hdyn]
    have hlow : ap.dstPort < dynamicPort := UInt16.not_le.mp hdyn
    rw [if_neg (fun hl => hlist ⟨hlow, by simpa using hl⟩)]

/-- Two ports are equal in the key if they are equal or both erased. -/
theorem erased_iff (d d' : UInt16) :
    (if dynamicPort ≤ d then 0 else d) = (if dynamicPort ≤ d' then 0 else d')
      ↔ d = d' ∨ (Erased d ∧ Erased d') := by
  unfold Erased
  by_cases hd : dynamicPort ≤ d
  · by_cases hd' : dynamicPort ≤ d'
    · simp [hd, hd']
    · have hne : d ≠ d' := fun he => hd' (he ▸ hd)
      simp [hd, hd', hne, eq_comm]
  · by_cases hd' : dynamicPort ≤ d'
    · have hne : d ≠ d' := fun he => hd (he ▸ hd')
      simp [hd, hd', hne]
    · simp only [hd, hd', if_false, false_or]
      exact ⟨Or.inl, fun h => h.elim id fun hz => hz.1.trans hz.2.symm⟩

/-- Pairs that differ at most in their ports come out of the filter alike if the
source is the router, or their ports are alike. -/
theorem portFilter_eq_iff {c : Config} {ap ap' : AddrPair} (hsrc : ap'.src = ap.src)
    (hdst : ap'.dst = ap.dst) (hproto : ap'.protocol = ap.protocol) :
    portFilter c ap = portFilter c ap' ↔ ap.src = routerAddr ∨ PortsAlike c ap ap' := by
  have hdrops : ∀ pair : AddrPair, DropsPair c pair ↔ pair.src = routerAddr ∨ ListedPair c pair :=
    fun _ => Iff.rfl
  by_cases hrouter : ap.src = routerAddr
  · have hnone : portFilter c ap = none := portFilter_eq_none_iff.mpr (Or.inl hrouter)
    have hnone' : portFilter c ap' = none :=
      portFilter_eq_none_iff.mpr (Or.inl (hsrc.trans hrouter))
    simp [hnone, hnone', hrouter]
  · have hrouter' : ap'.src ≠ routerAddr := fun h => hrouter (hsrc ▸ h)
    simp only [hrouter, false_or]
    unfold PortsAlike
    by_cases hl : ListedPair c ap
    · rw [portFilter_eq_none_iff.mpr (Or.inr hl), eq_comm, portFilter_eq_none_iff, hdrops]
      simp [hl, hrouter']
    · have hkeep := portFilter_of_not_drops (mt (hdrops ap).mp (by simp [hrouter, hl]))
      by_cases hl' : ListedPair c ap'
      · rw [hkeep, portFilter_eq_none_iff.mpr (Or.inr hl')]
        simp [hl, hl']
      · have hkeep' := portFilter_of_not_drops (mt (hdrops ap').mp (by simp [hrouter', hl']))
        rw [hkeep, hkeep', ← erased_iff]
        simp [hl, hl', hsrc, hdst, hproto]

/-! ## The two packets -/

/-- An accepted flow is what the filter leaves of the oriented pair. -/
theorem acceptedFlow_eq_bind (c : Config) (e : PacketEnv) (iptr : Packet) (hwDir : Int) :
    acceptedFlow c e iptr hwDir
      = if blocked c.options (ipP iptr) e.i e.wild = true then none
        else (orient c iptr hwDir).bind fun fd =>
          (portFilter c (orientedPair iptr fd.1)).map fun key => ⟨key, fd.2⟩ := by
  unfold acceptedFlow flowOf
  split
  next => rfl
  next =>
    cases orient c iptr hwDir with
    | none => rfl
    | some fd =>
      simp only [Option.bind_some]
      cases portFilter c (orientedPair iptr fd.1) <;> rfl

/-- With the header in common, the packets are treated alike if their flows are
the same. -/
theorem FragmentPair.alike_iff_eq (fp : FragmentPair) (c : Config) (e : PacketEnv)
    (hwDir : Int) :
    fp.Alike c e hwDir ↔ acceptedFlow c e fp.first hwDir = acceptedFlow c e fp.second hwDir := by
  unfold FragmentPair.Alike
  rw [fp.ipLen_eq, fp.ipSrc_eq]
  cases hf : acceptedFlow c e fp.first hwDir with
  | none => simp [eq_comm]
  | some f => simp [eq_comm]

/-- The flows are the same if and only if the payload has no say. -/
theorem FragmentPair.acceptedFlow_eq_iff (fp : FragmentPair) (c : Config) (e : PacketEnv)
    (hwDir : Int) :
    acceptedFlow c e fp.first hwDir = acceptedFlow c e fp.second hwDir
      ↔ fp.Indifferent c e hwDir := by
  rw [acceptedFlow_eq_bind, acceptedFlow_eq_bind, fp.ipP_eq, fp.orient_eq, FragmentPair.Indifferent]
  by_cases hb : blocked c.options (ipP fp.first) e.i e.wild = true
  · simp [hb]
  · rw [if_neg hb, if_neg hb]
    cases ho : orient c fp.first hwDir with
    | none => simp
    | some fd =>
      obtain ⟨flip, direction⟩ := fd
      obtain ⟨hsrc, hdst, hproto⟩ := fp.orientedPair_eq flip
      have hinj : Function.Injective fun key : AddrPair => (⟨key, direction⟩ : Flow) :=
        fun key key' he => congrArg Flow.key he
      simp only [Option.bind_some, hb, Bool.false_eq_true, false_or, Option.some.injEq,
        Prod.mk.injEq, (Option.map_injective hinj).eq_iff, portFilter_eq_iff hsrc hdst hproto]
      constructor
      · rintro halike flip' direction' ⟨rfl, rfl⟩
        exact halike
      · exact fun h => h flip direction ⟨rfl, rfl⟩

/-- Packets treated alike leave the same box behind. -/
theorem FragmentPair.Alike.handleIpPacket_eq {fp : FragmentPair} {b : Box} {e : PacketEnv}
    {hwDir : Int} (h : fp.Alike b.config e hwDir) (pl : Platform) :
    handleIpPacket pl e fp.first hwDir b = handleIpPacket pl e fp.second hwDir b := by
  rcases h with ⟨h1, h2⟩ | ⟨f, h1, h2, -, -⟩
  · rw [handleIpPacket_none h1, handleIpPacket_none h2]
  · have hrecord : accountRecord fp.second f.key e.t = accountRecord fp.first f.key e.t := by
      funext ht
      rw [accountRecord, fp.ipLen_eq, fp.ipSrc_eq, accountRecord]
    have htotals : accountTotals fp.second f.direction = accountTotals fp.first f.direction := by
      funext totals
      unfold accountTotals
      rw [fp.ipLen_eq]
    rw [handleIpPacket_some h1, handleIpPacket_some h2, account, account, hrecord, htotals]

/-- The flows of the two packets differ at most in their ports. -/
theorem FragmentPair.sameButPorts (fp : FragmentPair) {c : Config} {e : PacketEnv} {hwDir : Int}
    {f f' : Flow} (hf : acceptedFlow c e fp.first hwDir = some f)
    (hf' : acceptedFlow c e fp.second hwDir = some f') : f.SameButPorts f' := by
  rw [acceptedFlow_eq_bind] at hf hf'
  rw [fp.ipP_eq, fp.orient_eq] at hf'
  by_cases hb : blocked c.options (ipP fp.first) e.i e.wild = true
  · rw [if_pos hb] at hf
    exact absurd hf (by simp)
  · rw [if_neg hb] at hf hf'
    obtain ⟨⟨flip, direction⟩, ho, hkey⟩ := Option.bind_eq_some_iff.mp hf
    rw [ho] at hf'
    obtain ⟨key, hp, rfl⟩ := Option.map_eq_some_iff.mp hkey
    obtain ⟨key', hp', rfl⟩ := Option.map_eq_some_iff.mp hf'
    obtain ⟨hsrc, hdst, hproto⟩ := fp.orientedPair_eq flip
    obtain ⟨h1, h2, -, h4⟩ := portFilter_some hp
    obtain ⟨h1', h2', -, h4'⟩ := portFilter_some hp'
    exact ⟨rfl, by rw [h1, h1', hsrc], by rw [h2, h2', hdst], by rw [h4, h4', hproto]⟩

/-- Two packets are treated alike if and only if their payload has no say; and
if both are accounted, their flows differ at most in the ports. -/
theorem fragments_alike_iff (fp : FragmentPair) (c : Config) (e : PacketEnv) (hwDir : Int) :
    (fp.Alike c e hwDir ↔ fp.Indifferent c e hwDir)
      ∧ ∀ f f', acceptedFlow c e fp.first hwDir = some f →
          acceptedFlow c e fp.second hwDir = some f' → f.SameButPorts f'
            ∧ ipLen fp.first = ipLen fp.second
            ∧ (ipSrc fp.first = f.key.src ↔ ipSrc fp.second = f'.key.src) := by
  refine ⟨?_, fun f f' hf hf' => ?_⟩
  · rw [fp.alike_iff_eq, fp.acceptedFlow_eq_iff]
  · have hsame := fp.sameButPorts hf hf'
    refine ⟨hsame, fp.ipLen_eq.symm, ?_⟩
    rw [fp.ipSrc_eq, hsame.2.1]

/-- A later fragment from 10.0.0.1 to 172.16.0.2 that starts with the bytes
`payload`. -/
def laterFragment (payload : List UInt8) : Packet :=
  [0x45, 0, 0, 40, 0, 1, 0, 5, 64, 6, 0, 0, 10, 0, 0, 1, 172, 16, 0, 2] ++ payload

/-- Two later fragments of that kind, the payloads different in their second byte. -/
def webFragments : FragmentPair where
  first := laterFragment [0, 80, 0, 0]
  second := laterFragment [0, 81, 0, 0]
  version := by decide
  headerLen := by decide
  header := by decide
  ports := by decide
  offset := by decide

/-- Two fragments with one header are accounted under two keys. -/
theorem fragments_not_alike : ¬ webFragments.Alike plainConfig serverEnv 1 := by
  rw [webFragments.alike_iff_eq]
  decide +kernel

/-- A fragment of payload bytes that read as a listed port is not accounted, and
another fragment with its header is. -/
example : acceptedFlow webConfig serverEnv webFragments.first 1 = none
    ∧ acceptedFlow webConfig serverEnv webFragments.second 1 ≠ none := by
  decide +kernel

end Dotqoo.Capture
