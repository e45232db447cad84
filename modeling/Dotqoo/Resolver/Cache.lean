import Dotqoo.Resolver.Queue

/-!
# Whose name is returned

An answer of `resolve` is right if it is the numeric text of the address that was
asked for, or a name that `do_resolve` returned for it. That holds in every run in
which no two IPv6 addresses with the same first half are asked for, and no string is
released between the unlock of a call and its copy (`Clear`). The invariant behind it
is `Faithful`: the cache has one string for each key, and the string is right for the
one address that has the key.
-/

namespace Dotqoo.Resolver

open Dotqoo.Lib Dotqoo.Table

variable (inetNtop : UInt32 → In6Addr → Name)

/-- A text for this address. -/
def Right (names : List (AddrStorage × Name)) (a : Address) (text : Name) : Prop :=
  text = numeric inetNtop a ∨ (a.storage, text) ∈ names

/-- Every answer is a text for the address, as much of it as the buffer holds. -/
def AnswersOk (h : History) : Prop :=
  ∀ ans ∈ h.answers, ∃ text, ans.text = some (text.take (ans.buflen - 1).toNat) ∧
    Right inetNtop h.names ans.addr text

/-- An address has its key for itself, and a name is not stored for the address of a
call that has still to copy its string. -/
def Clear (h : History) : Event → Prop
  | .resolve a _ => h.st.call = none → ∀ b ∈ h.asked, b.key = a.key → b = a
  | .store w (some _) => ∀ c ∈ h.st.call, ∀ addr ∈ h.st.worker w,
      c.copies = true → addr.in6 ≠ c.addr.key
  | _ => True

instance (h : History) : ∀ e, Decidable (Clear h e)
  | .resolve _ _ => inferInstanceAs (Decidable (_ → _))
  | .store _ (some _) => inferInstanceAs (Decidable (∀ _ ∈ _, ∀ _ ∈ _, _ → _))
  | .store _ none => inferInstanceAs (Decidable True)
  | .copy => inferInstanceAs (Decidable True)
  | .pop _ => inferInstanceAs (Decidable True)

/-- The string at `p` is a text for the address. -/
def Shows (h : History) (p : Nat) (a : Address) : Prop :=
  ∃ text, h.st.strings p = some text ∧ Right inetNtop h.names a text

/-- What the cache is in a run that is clear. -/
structure Faithful (h : History) : Prop where
  apart : ∀ a ∈ h.asked, ∀ b ∈ h.asked, a.key = b.key → a = b
  cache : ∀ k p, hashFind h.st.nsHash k = some p → ∃ a ∈ h.asked, a.key = k ∧ Shows inetNtop h p a
  lt : ∀ k p, hashFind h.st.nsHash k = some p → p < h.st.brk
  distinct : ∀ k k' p, hashFind h.st.nsHash k = some p → hashFind h.st.nsHash k' = some p → k = k'
  call : ∀ c ∈ h.st.call, c.copies = true →
    c.addr ∈ h.asked ∧ hashFind h.st.nsHash c.addr.key = some c.hostname
  answers : AnswersOk inetNtop h

variable {inetNtop} {h h' : History}

theorem Right.mono {names names' : List (AddrStorage × Name)} {a : Address} {text : Name}
    (hr : Right inetNtop names a text) (hsub : names ⊆ names') : Right inetNtop names' a text :=
  hr.imp_right fun hmem => hsub hmem

theorem AnswersOk.mono (hok : AnswersOk inetNtop h) (hans : h'.answers = h.answers)
    (hsub : h.names ⊆ h'.names) : AnswersOk inetNtop h' := by
  intro ans hmem
  obtain ⟨text, htext, hr⟩ := hok ans (hans ▸ hmem)
  exact ⟨text, htext, hr.mono hsub⟩

/-- **The string of a call** is a text for its address. -/
theorem Faithful.call_shows (hf : Faithful inetNtop h) {c : Call} (hc : c ∈ h.st.call)
    (hcopies : c.copies = true) : Shows inetNtop h c.hostname c.addr := by
  obtain ⟨hasked, hfind⟩ := hf.call c hc hcopies
  obtain ⟨a, ha, hkey, hshows⟩ := hf.cache _ _ hfind
  rwa [hf.apart a ha c.addr hasked hkey] at hshows

/-- A step that leaves the cache and its strings. -/
theorem Faithful.frame (hf : Faithful inetNtop h) (hcache : h'.st.nsHash = h.st.nsHash)
    (hstrings : h'.st.strings = h.st.strings) (hbrk : h'.st.brk = h.st.brk)
    (hasked : h'.asked = h.asked) (hnames : h'.names = h.names)
    (hcall : ∀ c ∈ h'.st.call, c ∈ h.st.call) (hanswers : AnswersOk inetNtop h') :
    Faithful inetNtop h' where
  apart := hasked ▸ hf.apart
  cache := by
    simp only [Shows, hcache, hstrings, hasked, hnames]
    exact hf.cache
  lt := by
    rw [hcache, hbrk]
    exact hf.lt
  distinct := hcache ▸ hf.distinct
  call := fun c hc hcopies => by
    rw [hasked, hcache]
    exact hf.call c (hcall c hc) hcopies
  answers := hanswers

/-- One more address, with its key for itself. -/
theorem apart_append {asked : List Address} {a : Address}
    (hapart : ∀ b ∈ asked, ∀ c ∈ asked, b.key = c.key → b = c)
    (hclear : ∀ b ∈ asked, b.key = a.key → b = a) :
    ∀ b ∈ asked ++ [a], ∀ c ∈ asked ++ [a], b.key = c.key → b = c := by
  intro b hb c hc hkey
  rcases List.mem_append.mp hb with hb | hb <;> rcases List.mem_append.mp hc with hc | hc
  · exact hapart b hb c hc hkey
  · rw [List.mem_singleton.mp hc] at hkey ⊢
    exact hclear b hb hkey
  · rw [List.mem_singleton.mp hb] at hkey ⊢
    exact (hclear c hc hkey.symm).symm
  · rw [List.mem_singleton.mp hb, List.mem_singleton.mp hc]

/-- A cache that has a fresh string for one key has no string twice. -/
theorem Faithful.fresh (hf : Faithful inetNtop h) {find' : In6Addr → Option Nat} {k₀ : In6Addr}
    (hfind : ∀ k, find' k = if k = k₀ then some h.st.brk else hashFind h.st.nsHash k) :
    (∀ k p, find' k = some p → p < h.st.brk + 1) ∧
      ∀ k k' p, find' k = some p → find' k' = some p → k = k' := by
  constructor
  · intro k p hp
    rw [hfind] at hp
    split at hp
    next => cases hp; exact Nat.lt_succ_self _
    next => exact Nat.lt_succ_of_lt (hf.lt k p hp)
  · intro k k' p hp hp'
    rw [hfind] at hp hp'
    split at hp <;> split at hp'
    next hk hk' => rw [hk, hk']
    next => cases hp; exact absurd (hf.lt k' _ hp') (Nat.lt_irrefl _)
    next => cases hp'; exact absurd (hf.lt k _ hp) (Nat.lt_irrefl _)
    next => exact hf.distinct k k' p hp hp'

/-- **A call finds** the string of its address. -/
theorem Faithful.found (hf : Faithful inetNtop h) {a : Address} {p : Nat} {result : Option Int}
    (hclear : ∀ b ∈ h.asked, b.key = a.key → b = a) (hfind : hashFind h.st.nsHash a.key = some p) :
    Faithful inetNtop { h with
      st := { h.st with call := some ⟨a, p, result⟩ }, asked := h.asked ++ [a] } where
  apart := apart_append hf.apart hclear
  cache := fun k q hq => by
    obtain ⟨b, hb, hkey, hshows⟩ := hf.cache k q hq
    exact ⟨b, List.mem_append_left _ hb, hkey, hshows⟩
  lt := hf.lt
  distinct := hf.distinct
  call := fun c hc _ => by
    cases hc
    exact ⟨by simp, hfind⟩
  answers := hf.answers

/-- **A new address** is entered with its numeric text. -/
theorem Faithful.enter (hf : Faithful inetNtop h) {a : Address} {result : Option Int}
    (hclear : ∀ b ∈ h.asked, b.key = a.key → b = a)
    (hcache : h'.st.nsHash = (h.st.enter inetNtop a).nsHash)
    (hstrings : h'.st.strings = (h.st.enter inetNtop a).strings)
    (hbrk : h'.st.brk = h.st.brk + 1) (hcall : h'.st.call = some ⟨a, h.st.brk, result⟩)
    (hasked : h'.asked = h.asked ++ [a]) (hnames : h'.names = h.names)
    (hanswers : h'.answers = h.answers) : Faithful inetNtop h' := by
  have hfind : ∀ k, hashFind h'.st.nsHash k =
      if k = a.key then some h.st.brk else hashFind h.st.nsHash k := fun k =>
    hcache ▸ hashFind_enter inetNtop h.st a k
  have hnewText : h'.st.strings h.st.brk = some (numeric inetNtop a) :=
    hstrings ▸ Function.update_self ..
  have hold : ∀ p < h.st.brk, h'.st.strings p = h.st.strings p := fun p hp =>
    hstrings ▸ Function.update_of_ne (Nat.ne_of_lt hp) ..
  refine ⟨?_, fun k p hp => ?_, hbrk ▸ (hf.fresh hfind).1, (hf.fresh hfind).2, ?_, ?_⟩
  · rw [hasked]
    exact apart_append hf.apart hclear
  · rw [hfind] at hp
    rw [hasked]
    split at hp
    next hk =>
      cases hp
      exact ⟨a, by simp, hk.symm, _, hnewText, Or.inl rfl⟩
    next =>
      obtain ⟨b, hb, hkey, text, htext, hr⟩ := hf.cache k p hp
      exact ⟨b, List.mem_append_left _ hb, hkey, text, by rw [hold p (hf.lt k p hp), htext],
        hnames ▸ hr⟩
  · intro c hc _
    rw [hcall] at hc
    cases hc
    exact ⟨by simp [hasked], by rw [hfind, if_pos rfl]⟩
  · exact hf.answers.mono hanswers (hnames ▸ fun _ => id)

/-- **The copy** gives a text for the address. -/
theorem Faithful.copy (hf : Faithful inetNtop h) {c : Call} (hc : h.st.call = some c) :
    Faithful inetNtop (copy h c) := by
  unfold Resolver.copy
  split
  next => exact hf.frame rfl rfl rfl rfl rfl (fun c' hc' => by cases hc') hf.answers
  next buflen hresult =>
    split
    next hlen =>
      have hcopies : c.copies = true := by simp [Call.copies, hresult, hlen]
      obtain ⟨text, htext, hr⟩ := hf.call_shows hc hcopies
      refine hf.frame rfl rfl rfl rfl rfl (fun c' hc' => by cases hc') fun ans hans => ?_
      rcases List.mem_append.mp hans with hans | hans
      · exact hf.answers ans hans
      · rw [List.mem_singleton.mp hans]
        exact ⟨text, by simp [htext], hr⟩
    next => exact hf.frame rfl rfl rfl rfl rfl (fun c' hc' => by cases hc') hf.answers

/-- **A name** takes the place of the text of its address. -/
theorem Faithful.store (hf : Faithful inetNtop h) (hs : Sound h) {w : Fin 2} {addr : AddrStorage}
    (hw : h.st.worker w = some addr) (text : Name)
    (hclear : ∀ c ∈ h.st.call, c.copies = true → addr.in6 ≠ c.addr.key) :
    Faithful inetNtop { h with
      st := storeResult h.st w (some text), names := h.names ++ [(addr, text)] } := by
  have hst := storeResult_stored hw text
  have hfresh : hashFind h.st.nsHash addr.in6 ≠ some h.st.brk := fun hp =>
    Nat.lt_irrefl _ (hf.lt _ _ hp)
  obtain ⟨a, ha, haddr⟩ :=
    hs.asked addr (by rw [hs.fifo]; exact List.mem_append_left _ (hs.busy w addr hw))
  refine ⟨hf.apart, fun k p hp => ?_, hst.brk ▸ (hf.fresh hst.find).1, (hf.fresh hst.find).2,
    fun c hc hcopies => ?_, hf.answers.mono rfl (List.subset_append_left ..)⟩
  · rw [hst.find] at hp
    split at hp
    next hk =>
      cases hp
      refine ⟨a, ha, by rw [hk, haddr], text, hst.new hfresh, Or.inr ?_⟩
      exact List.mem_append_right _ (by simp [haddr])
    next hk =>
      obtain ⟨b, hb, hkey, text', htext', hr⟩ := hf.cache k p hp
      refine ⟨b, hb, hkey, text', ?_, hr.mono (List.subset_append_left ..)⟩
      -- the string that is released is the one of another key
      have hother : hashFind h.st.nsHash addr.in6 ≠ some p := fun hp' =>
        hk (hf.distinct k addr.in6 p hp hp')
      exact (hst.kept p (Nat.ne_of_lt (hf.lt k p hp)) hother).trans htext'
  · have hc' : c ∈ h.st.call := hst.call ▸ hc
    obtain ⟨hasked, hfind⟩ := hf.call c hc' hcopies
    refine ⟨hasked, ?_⟩
    show hashFind (storeResult h.st w (some text)).nsHash c.addr.key = _
    rw [hst.find, if_neg (hclear c hc' hcopies).symm, hfind]

/-! ## Runs -/

/-- **One step** that is clear keeps the cache faithful. -/
theorem Faithful.step (hf : Faithful inetNtop h) (hs : Sound h) {e : Event} (hclear : Clear h e) :
    Faithful inetNtop (step inetNtop h e) := by
  cases e with
  | copy =>
    cases hc : h.st.call with
    | none => simpa [Resolver.step, hc] using hf
    | some c =>
      simp only [Resolver.step, hc]
      exact hf.copy hc
  | pop w =>
    obtain ⟨worker, queue, hpop⟩ := popQueue_eq h.st w
    simp only [Resolver.step, hpop]
    exact hf.frame rfl rfl rfl rfl rfl (fun c => id) hf.answers
  | store w hostname =>
    cases hw : h.st.worker w with
    | none => simpa [Resolver.step, hw, storeResult] using hf
    | some addr =>
      cases hostname with
      | none =>
        simp only [Resolver.step, hw, storeResult]
        exact hf.frame rfl rfl rfl rfl rfl (fun c => id) hf.answers
      | some text =>
        simp only [Resolver.step, hw]
        exact hf.store hs hw text fun c hc hcopies => hclear c hc addr hw hcopies
  | resolve a result =>
    cases hc : h.st.call with
    | some c => simpa [Resolver.step, hc] using hf
    | none =>
      have hapart : ∀ b ∈ h.asked, b.key = a.key → b = a := hclear hc
      have hstep := resolved_step inetNtop hc a result
      generalize Resolver.step inetNtop h (.resolve a result) = h' at hstep ⊢
      cases hstep with
      | found hfind => exact hf.found hapart hfind
      | kept => exact hf.enter hapart rfl rfl rfl rfl rfl rfl rfl
      | queued => exact hf.enter hapart rfl rfl rfl rfl rfl rfl rfl

theorem faithful_initial : Faithful inetNtop initial where
  apart := by simp [initial]
  cache := fun k p hp => by cases hp
  lt := fun k p hp => by cases hp
  distinct := fun k k' p hp => by cases hp
  call := fun c hc => by cases hc
  answers := by simp [AnswersOk, initial]

variable (inetNtop) in
/-- **The cache never mixes up addresses** in a run that is clear. -/
theorem answers_right {es : List Event} (hclear : Along (step inetNtop) Clear initial es) :
    AnswersOk inetNtop (run (step inetNtop) initial es) := by
  have hrun : Faithful inetNtop (run (step inetNtop) initial es) ∧
      Sound (run (step inetNtop) initial es) :=
    hclear.invariant (I := fun h => Faithful inetNtop h ∧ Sound h)
      (fun h e hI hc => ⟨hI.1.step hI.2 hc, hI.2.step inetNtop e⟩) ⟨faithful_initial, sound_initial⟩
  exact hrun.1.answers

/-- 2001:db8::1 is asked for, and again when its name has been stored. -/
theorem answers_right_named :
    let inetNtop : UInt32 → In6Addr → Name := fun _ _ => "2001:db8::1".toList
    let h := run (step inetNtop) initial
      [.resolve (.inet6 ⟨0xb80d0120, 0, 0, 0x01000000⟩) (some 46), .copy, .pop 0,
        .store 0 (some "example".toList),
        .resolve (.inet6 ⟨0xb80d0120, 0, 0, 0x01000000⟩) (some 46), .copy]
    h.answers.map Answer.text = [some "2001:db8::1".toList, some "example".toList] ∧
      AnswersOk inetNtop h := by
  intro inetNtop h
  exact ⟨by decide +kernel, answers_right inetNtop (by decide +kernel)⟩

/-- 2001:db8::2 is answered with the text of 2001:db8::1. -/
theorem second_half_ignored :
    let inetNtop : UInt32 → In6Addr → Name := fun _ addr =>
      if addr.s3 = 0x01000000 then "2001:db8::1".toList else "2001:db8::2".toList
    ¬ ∀ es, AnswersOk inetNtop (run (step inetNtop) initial es) := by
  intro inetNtop hall
  let es : List Event := [.resolve (.inet6 ⟨0xb80d0120, 0, 0, 0x01000000⟩) (some 46), .copy,
    .resolve (.inet6 ⟨0xb80d0120, 0, 0, 0x02000000⟩) (some 46), .copy]
  have hanswers : (run (step inetNtop) initial es).answers =
      [⟨.inet6 ⟨0xb80d0120, 0, 0, 0x01000000⟩, 46, some "2001:db8::1".toList⟩,
        ⟨.inet6 ⟨0xb80d0120, 0, 0, 0x02000000⟩, 46, some "2001:db8::1".toList⟩] := by
    decide +kernel
  have hnames : (run (step inetNtop) initial es).names = [] := by decide +kernel
  have hsecond : ⟨.inet6 ⟨0xb80d0120, 0, 0, 0x02000000⟩, 46, some "2001:db8::1".toList⟩ ∈
      (run (step inetNtop) initial es).answers := by simp [hanswers]
  obtain ⟨text, htext, hright⟩ := hall es _ hsecond
  rw [hnames] at hright
  rcases hright with rfl | hmem
  · exact absurd htext (by decide +kernel)
  · cases hmem

end Dotqoo.Resolver
