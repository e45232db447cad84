import Dotqoo.Client.Locator

/-!
# The places of a database

A record of the location file is a country and an area behind the end of its range. Each is
a text in place or a redirection to one, and the country may take the area along to
another place of the file; texts are shared between records, so nothing says that they lie
apart. `RecordAt` says of a file that it has a place at a record, in one of these ways.

The reader is one path through the file with a position that every step moves. It finds the
country and the area of every layout (`run_getAddr`), so a search gives the place of the
range that has the address (`getIpAddr_place`).

A country of which the redirection is to offset 0 is not a layout: `getString(0)` does not
move, and reads on where it is. For an area, 0 is the text that is not known.
-/

namespace Dotqoo.Client

open Dotqoo.Lib

namespace IPLocator

variable (db : IPLocator)

/-! ## Layouts -/

/-- The bytes are at an offset of the file. -/
def At (p : Nat) (bytes : List UInt8) : Prop := bytes <+: db.ipdb.drop p

/-- A text, with the zero behind it. -/
def TextAt (p : Nat) (s : List UInt8) : Prop := 0 ∉ s ∧ db.At p (s ++ [0])

/-- A redirection: a mark, and the offset that it is to. -/
def RedirectAt (p : Nat) (mark : UInt8) (target : Nat) : Prop :=
  target < 2 ^ 24 ∧ db.At p (mark :: leBytes 3 target)

/-- The text does not begin like a redirection. -/
def Unmarked (s : List UInt8) : Prop := ∀ c ∈ s.head?, c ≠ 1 ∧ c ≠ 2

instance (p : Nat) (bytes : List UInt8) : Decidable (db.At p bytes) :=
  inferInstanceAs (Decidable (bytes <+: db.ipdb.drop p))

instance (p : Nat) (s : List UInt8) : Decidable (db.TextAt p s) :=
  inferInstanceAs (Decidable (_ ∧ _))

instance (p : Nat) (mark : UInt8) (target : Nat) : Decidable (db.RedirectAt p mark target) :=
  inferInstanceAs (Decidable (_ ∧ _))

/-- The area at an offset. -/
inductive AreaAt (p : Nat) : List UInt8 → Prop
  | inline {s : List UInt8} (text : db.TextAt p s) (unmarked : Unmarked s) : AreaAt p s
  | redirect {s : List UInt8} {mark : UInt8} {target : Nat} (hmark : mark = 1 ∨ mark = 2)
      (redirect : db.RedirectAt p mark target) (set : target ≠ 0) (text : db.TextAt target s) :
      AreaAt p s
  | unknown {mark : UInt8} (hmark : mark = 1 ∨ mark = 2) (redirect : db.RedirectAt p mark 0) :
      AreaAt p []

/-- The country at an offset, and where its area is. -/
inductive CountryAt (p : Nat) : List UInt8 → Nat → Prop
  | inline {s : List UInt8} (text : db.TextAt p s) (unmarked : Unmarked s) :
      CountryAt p s (p + s.length + 1)
  | redirect {s : List UInt8} {target : Nat} (redirect : db.RedirectAt p 2 target)
      (set : target ≠ 0) (text : db.TextAt target s) : CountryAt p s (p + 4)

/-- The record at an offset has this country and area. -/
inductive RecordAt (offset : Nat) (country area : List UInt8) : Prop
  | here {p : Nat} (hcountry : db.CountryAt (offset + 4) country p) (harea : db.AreaAt p area)
  | moved {target p : Nat} (redirect : db.RedirectAt (offset + 4) 1 target) (set : target ≠ 0)
      (hcountry : db.CountryAt target country p) (harea : db.AreaAt p area)

variable {db}

/-! ## Reading -/

/-- One step of a reading. -/
theorem run_bind {α β : Type} {m : FileM α} {f : α → FileM β} {a : α} {pos pos' : Nat}
    (h : m.run pos = some (a, pos')) : (m >>= f).run pos = (f a).run pos' := by
  rw [StateT.run_bind, h]
  rfl

theorem run_seek_natCast (p pos : Nat) : (seek p).run pos = some ((), p) :=
  run_seek (Int.natCast_nonneg p) pos

/-- Reading bytes that are there. -/
theorem run_readUnpack_at (widths : List Nat) {fields : List (List UInt8)} {p : Nat}
    (hwidths : fields.map List.length = widths) (h : db.At p fields.flatten) :
    (db.readUnpack widths).run p = some (fields.map ofLe, p + widths.sum) := by
  have hlen : fields.flatten.length = widths.sum := by rw [← hwidths, List.length_flatten]
  have htake : (db.ipdb.drop p).take widths.sum = fields.flatten := by
    rw [← hlen]
    exact (List.prefix_iff_eq_take.mp h).symm
  show (unpackLe widths ((db.ipdb.drop p).take widths.sum)).bind (fun fields' =>
    some (fields', p + ((db.ipdb.drop p).take widths.sum).length)) = _
  rw [htake, unpackLe_flatten hwidths, hlen]
  rfl

theorem run_readByte {p : Nat} {c : UInt8} {rest : List UInt8} (h : db.At p (c :: rest)) :
    db.readByte.run p = some (c.toNat, p + 1) := by
  have hbyte : db.At p [[c]].flatten := (List.prefix_append [c] rest).trans h
  rw [readByte, run_bind (run_readUnpack_at [1] rfl hbyte)]
  have hc : ofLe [c] = c.toNat := by simp [ofLe]
  rw [List.map_singleton, hc]
  rfl

/-- What is behind a mark. -/
theorem At.tail {p : Nat} {c : UInt8} {rest : List UInt8} (h : db.At p (c :: rest)) :
    db.At (p + 1) rest := by
  obtain ⟨t, ht⟩ := h
  refine ⟨t, ?_⟩
  rw [← List.drop_drop, ← ht]
  rfl

/-- The offset of a redirection. -/
theorem run_getLong3 {p target : Nat} (ht : target < 2 ^ 24) (h : db.At p (leBytes 3 target)) :
    (db.getLong3 0).run p = some (target, p + 3) := by
  have hfields : leBytes 3 target = [leBytes 2 target, leBytes 1 (target / 2 ^ 16)].flatten := by
    simp [leBytes, Nat.div_div_eq_div_mul]
  rw [hfields] at h
  have hread := run_readUnpack_at [2, 1] rfl h
  show (db.readUnpack [2, 1] >>= _).run p = _
  rw [run_bind hread]
  show some (((ofLe (leBytes 1 (target / 2 ^ 16))) <<< 16) + ofLe (leBytes 2 target), p + 3) = _
  rw [ofLe_leBytes, ofLe_leBytes, Nat.shiftLeft_eq]
  congr 2
  omega

theorem bytesToZero_prefix {s rest : List UInt8} (hs : 0 ∉ s) (h : s ++ [0] <+: rest) :
    bytesToZero rest = some s := by
  obtain ⟨t, rfl⟩ := h
  induction s with
  | nil => rfl
  | cons c s ih =>
    have hc : c ≠ 0 := fun h0 => hs (h0 ▸ List.mem_cons_self)
    have htail := ih fun hmem => hs (List.mem_cons_of_mem c hmem)
    show (if c = 0 then some [] else (bytesToZero (s ++ [0] ++ t)).map (c :: ·)) = some (c :: s)
    rw [if_neg hc, htail]
    rfl

/-- A text, at the position or at the offset. -/
theorem run_getString {p offset pos : Nat} {s : List UInt8} (h : db.TextAt p s)
    (hp : p = if offset = 0 then pos else offset) :
    (db.getString offset).run pos = some (s, p + s.length + 1) := by
  have hread : ∀ q, q = p → ((bytesToZero (db.ipdb.drop q)).map fun str =>
      (str, q + str.length + 1)) = some (s, p + s.length + 1) := by
    intro q hq
    rw [hq, bytesToZero_prefix h.1 h.2]
    rfl
  by_cases h0 : offset = 0
  · rw [if_pos h0] at hp
    subst h0
    exact hread pos hp.symm
  · rw [if_neg h0] at hp
    rw [getString, if_pos h0, run_bind (run_seek_natCast offset pos)]
    exact hread offset hp.symm

/-- The first byte of a text is no mark. -/
theorem TextAt.first {p : Nat} {s : List UInt8} (h : db.TextAt p s) (hs : Unmarked s) :
    ∃ c rest, db.At p (c :: rest) ∧ c.toNat ≠ 1 ∧ c.toNat ≠ 2 := by
  cases s with
  | nil => exact ⟨0, [], h.2, by decide, by decide⟩
  | cons c s =>
    obtain ⟨h1, h2⟩ := hs c rfl
    have hat : db.At p (c :: (s ++ [0])) := h.2
    exact ⟨c, s ++ [0], hat, fun he => h1 (UInt8.toNat_inj.mp he), fun he => h2 (UInt8.toNat_inj.mp he)⟩

/-- `getAreaAddr` behind its seek. -/
def getAreaHere (db : IPLocator) (offset : Nat) : FileM (List UInt8) := do
  let byte ← db.readByte
  if byte = 0x01 ∨ byte = 0x02 then
    let p ← db.getLong3 0
    if p ≠ 0 then db.getString p else pure []
  else
    seekBack
    db.getString offset

/-- The seek brings the position to the area, if it is not there. -/
theorem run_getAreaAddr_seek {p offset pos : Nat} (hp : p = if offset = 0 then pos else offset) :
    (db.getAreaAddr offset).run pos = (db.getAreaHere offset).run p := by
  by_cases h0 : offset = 0
  · rw [if_pos h0] at hp
    subst h0
    rw [hp]
    rfl
  · rw [if_neg h0] at hp
    rw [getAreaAddr, if_pos h0, run_bind (run_seek_natCast offset pos), hp]
    rfl

/-- A redirection is followed, unless it is to 0. -/
theorem run_getAreaHere_redirect {p target : Nat} {mark : UInt8} (hmark : mark = 1 ∨ mark = 2)
    (h : db.RedirectAt p mark target) (offset : Nat) : (db.getAreaHere offset).run p =
      (if target ≠ 0 then db.getString target else pure [] : FileM (List UInt8)).run (p + 4) := by
  have htag : mark.toNat = 0x01 ∨ mark.toNat = 0x02 := by
    rcases hmark with rfl | rfl
    · exact Or.inl rfl
    · exact Or.inr rfl
  rw [getAreaHere, run_bind (run_readByte h.2), if_pos htag, run_bind (run_getLong3 h.1 h.2.tail)]

theorem run_seekBack (p : Nat) : seekBack.run (p + 1) = some ((), p) := by
  show (if 1 ≤ p + 1 then some ((), p + 1 - 1) else none) = _
  rw [if_pos (Nat.le_add_left 1 p), Nat.add_sub_cancel]

/-- **The area**, read at the position or at the offset. -/
theorem run_getAreaAddr {p offset pos : Nat} {area : List UInt8} (h : db.AreaAt p area)
    (hp : p = if offset = 0 then pos else offset) :
    ∃ pos', (db.getAreaAddr offset).run pos = some (area, pos') := by
  rw [run_getAreaAddr_seek hp]
  cases h with
  | inline text unmarked =>
    obtain ⟨c, rest, hat, h1, h2⟩ := text.first unmarked
    have hhere : p = if offset = 0 then p else offset := by
      by_cases h0 : offset = 0
      · rw [if_pos h0]
      · rw [if_neg h0]
        rwa [if_neg h0] at hp
    rw [getAreaHere, run_bind (run_readByte hat), if_neg (not_or.mpr ⟨h1, h2⟩),
      run_bind (run_seekBack p)]
    exact ⟨_, run_getString text hhere⟩
  | redirect hmark redirect set text =>
    rw [run_getAreaHere_redirect hmark redirect, if_pos set]
    exact ⟨_, run_getString text (if_neg set).symm⟩
  | unknown hmark redirect =>
    rw [run_getAreaHere_redirect hmark redirect]
    exact ⟨_, rfl⟩

/-- **The country**: behind it the area is at the position, or at the offset that is
handed on. -/
theorem run_getCountryAddr {offset : Nat} {country area : List UInt8}
    (h : db.RecordAt offset country area) : ∃ p areaOffset pos',
      (db.getCountryAddr offset).run (offset + 4) = some ((country, areaOffset), pos') ∧
      db.AreaAt p area ∧ p = if areaOffset = 0 then pos' else areaOffset := by
  have hmoves : (1 : UInt8).toNat = 0x01 := rfl
  have hmark : (2 : UInt8).toNat = 0x02 := rfl
  have hnot : ¬ (2 : UInt8).toNat = 0x01 := by decide
  cases h with
  | here hcountry harea =>
    cases hcountry with
    | inline text unmarked =>
      obtain ⟨c, rest, hat, h1, h2⟩ := text.first unmarked
      refine ⟨_, 0, _, ?_, harea, rfl⟩
      rw [getCountryAddr, run_bind (run_readByte hat), if_neg h1, if_neg h2,
        run_bind (run_getString text (if_neg (Nat.succ_ne_zero _)).symm)]
      rfl
    | @redirect target redirect set text =>
      refine ⟨_, offset + 8, target + country.length + 1, ?_, harea, rfl⟩
      rw [getCountryAddr, run_bind (run_readByte redirect.2), if_neg hnot, if_pos hmark,
        run_bind (run_getLong3 redirect.1 redirect.2.tail),
        run_bind (run_getString text (if_neg set).symm)]
      rfl
  | @moved target p redirect set hcountry harea =>
    have hmoved : (db.getCountryAddr offset).run (offset + 4) = (do
        let b ← db.readByte
        if b = 0x02 then
          let countryAddr ← db.getString (← db.getLong3 0)
          seek (target + 4)
          pure (countryAddr, 0)
        else
          let countryAddr ← db.getString target
          pure (countryAddr, 0) : FileM (List UInt8 × Nat)).run target := by
      rw [getCountryAddr, run_bind (run_readByte redirect.2), if_pos hmoves,
        run_bind (run_getLong3 redirect.1 redirect.2.tail),
        run_bind (run_seek_natCast target _)]
    rw [hmoved]
    cases hcountry with
    | inline text unmarked =>
      obtain ⟨c, rest, hat, -, h2⟩ := text.first unmarked
      refine ⟨_, 0, _, ?_, harea, rfl⟩
      rw [run_bind (run_readByte hat), if_neg h2,
        run_bind (run_getString text (if_neg set).symm)]
      rfl
    | redirect redirect' set' text =>
      refine ⟨_, 0, _, ?_, harea, rfl⟩
      rw [run_bind (run_readByte redirect'.2), if_pos hmark,
        run_bind (run_getLong3 redirect'.1 redirect'.2.tail),
        run_bind (run_getString text (if_neg set').symm)]
      exact run_bind (run_seek_natCast (target + 4) _)

/-- **The text of a record** is its country and its area. -/
theorem run_getAddr_record {offset : Nat} {country area : List UInt8}
    (h : db.RecordAt offset country area) (pos : Nat) :
    (db.getAddr offset).run' pos = some (country ++ [0x20] ++ area) := by
  obtain ⟨p, areaOffset, pos₁, hcountry, harea, hp⟩ := run_getCountryAddr h
  obtain ⟨pos₂, hrun⟩ := run_getAreaAddr harea hp
  have hseek : (seek ((offset : Int) + 4)).run pos = some ((), offset + 4) :=
    run_seek_natCast (offset + 4) pos
  rw [StateT.run'_eq, getAddr, run_bind hseek, run_bind hcountry, run_bind hrun]
  rfl

/-! ## A database -/

/-- A range of addresses, and what is known of it. -/
structure Place where
  range : IpRange
  country : List UInt8
  area : List UInt8

/-- What `getAddr` joins. -/
def Place.text (place : Place) : List UInt8 := place.country ++ [0x20] ++ place.area

/-- The file is a database of these places. -/
structure Holds (db : IPLocator) (places : List Place) : Prop where
  index : db.Indexes (places.map Place.range)
  record : ∀ place ∈ places, db.RecordAt place.range.endIpOffset place.country place.area

/-- The text of a place is found at its record. -/
theorem Holds.addressText {places : List Place} (h : db.Holds places) {place : Place}
    (hmem : place ∈ places) (gbk : List UInt8 → Option String) :
    db.addressText gbk place.range.endIpOffset = gbk place.text := by
  rw [IPLocator.addressText, run_getAddr_record (h.record place hmem)]
  rfl

/-- An address in the range of a place. -/
theorem Holds.getIpAddr_mem {places : List Place} (h : db.Holds places) (ip : UInt32)
    {place : Place} (hmem : place ∈ places) (hin : place.range.Contains ip.toNat)
    (gbk : List UInt8 → Option String) (pos : Nat) :
    (db.getIpAddr gbk ip.toNat).run' pos = gbk place.text := by
  have hrange : place.range ∈ places.map Place.range := List.mem_map_of_mem hmem
  obtain ⟨j, hj⟩ := List.mem_iff_getElem?.mp hrange
  have hcand := h.index.candidate_eq ip.toNat_lt hj hin
  rw [h.index.run_getIpAddr hcand hj, if_pos hin, h.addressText hmem]

/-- An address in no range. -/
theorem Holds.getIpAddr_none {places : List Place} (h : db.Holds places) (ip : UInt32)
    (hnone : ∀ place ∈ places, ¬ place.range.Contains ip.toNat)
    (gbk : List UInt8 → Option String) (pos : Nat) :
    (db.getIpAddr gbk ip.toNat).run' pos = some notFound := by
  obtain ⟨j, e, hcand, hj⟩ := h.index.candidate_mem ip.toNat
  obtain ⟨place, hmem, rfl⟩ := List.mem_map.mp (List.mem_of_getElem? hj)
  rw [h.index.run_getIpAddr hcand hj, if_neg (hnone place hmem)]

/-- **Every address has its place.** Whatever layouts the records have and whatever texts
they share, and whatever was read before: an address in the range of a place gets the text
of the place, if that decodes, and one in no range gets the text for none. The locator can
be built if the text of the last place decodes, which is the version. -/
theorem getIpAddr_place {places : List Place} (h : db.Holds places)
    (gbk : List UInt8 → Option String) :
    (∀ (ip : UInt32) (pos : Nat),
      (∀ place ∈ places, place.range.Contains ip.toNat →
        (db.getIpAddr gbk ip.toNat).run' pos = gbk place.text) ∧
      ((∀ place ∈ places, ¬ place.range.Contains ip.toNat) →
        (db.getIpAddr gbk ip.toNat).run' pos = some notFound)) ∧
    (unpackLe [4, 4] (db.ipdb.take 8) = some [db.firstIndex, db.lastIndex] →
      ∃ version ∈ places, places.getLast? = some version ∧
        (init gbk db.ipdb = some db ↔ (gbk version.text).isSome)) := by
  refine ⟨fun ip pos => ⟨fun place hmem hin => h.getIpAddr_mem ip hmem hin gbk pos,
    fun hnone => h.getIpAddr_none ip hnone gbk pos⟩, fun hheader => ?_⟩
  obtain ⟨top, htop, -⟩ := h.index.last
  have hlast := htop
  rw [List.getLast?_map, Option.map_eq_some_iff] at hlast
  obtain ⟨version, hversion, rfl⟩ := hlast
  have hmem := List.mem_of_getLast? hversion
  refine ⟨version, hmem, hversion, ?_⟩
  rw [init_eq_some_iff hheader rfl h.index htop, h.addressText hmem]

/-- A place in full; one that moves to the country of the first; and the version, which
takes its country from the area of the first and has no area. -/
def sharedDb : IPLocator := ⟨[8, 0, 0, 0, 22, 0, 0, 0,
  0, 0, 0, 1, 29, 0, 0, 0, 0, 0, 2, 37, 0, 0, 0, 255, 255, 255, 45, 0, 0,
  255, 255, 255, 1, 0x41, 0, 0x42, 0, 255, 255, 255, 2, 1, 33, 0, 0,
  255, 255, 255, 255, 2, 35, 0, 0, 1, 0, 0, 0], 8, 22⟩

/-- The places of the file. -/
def sharedPlaces : List Place :=
  [⟨⟨0x01000000, 0x01ffffff, 29⟩, [0x41], [0x42]⟩, ⟨⟨0x02000000, 0x02ffffff, 37⟩, [0x41], [0x42]⟩,
    ⟨⟨0xffffff00, 0xffffffff, 45⟩, [0x42], []⟩]

/-- A decoding of one byte a character. -/
def ascii (bytes : List UInt8) : Option String :=
  some (String.ofList (bytes.map fun b => Char.ofNat b.toNat))

theorem holds_sharedDb : sharedDb.Holds sharedPlaces := by
  have hunmarked : ∀ c : UInt8, c ≠ 1 ∧ c ≠ 2 → Unmarked [c] :=
    fun c hc c' hc' => Option.some.inj hc' ▸ hc
  have hcountry : sharedDb.CountryAt 33 [0x41] 35 :=
    .inline (by decide) (hunmarked _ (by decide))
  have harea : sharedDb.AreaAt 35 [0x42] := .inline (by decide) (hunmarked _ (by decide))
  have hversion : sharedDb.RedirectAt 49 2 35 := by decide
  have hnone : sharedDb.RedirectAt 53 1 0 := by decide
  refine ⟨⟨by decide, ?_, by decide, ?_, ⟨_, rfl, rfl, rfl⟩⟩, ?_⟩
  · rintro (_ | _ | _ | k) e he
    · cases he
      decide
    · cases he
      decide
    · cases he
      decide
    · cases he
  · rintro (_ | _ | _ | k) e e' he he'
    · cases he
      cases he'
      decide
    · cases he
      cases he'
      decide
    · cases he'
    · cases he'
  · rw [sharedPlaces, List.forall_mem_cons, List.forall_mem_cons, List.forall_mem_singleton]
    exact ⟨.here hcountry harea, .moved (by decide) (by decide) hcountry harea,
      .here (.redirect hversion (by decide) (by decide)) (.unknown (Or.inl rfl) hnone)⟩

theorem getIpAddr_place_shared : (sharedDb.getIpAddr ascii 0x02030405).run' 8 = some "A B" ∧
    (sharedDb.getIpAddr ascii 0xffffffff).run' 8 = some "B " :=
  ⟨((getIpAddr_place holds_sharedDb ascii).1 0x02030405 8).1 _
      (List.mem_cons_of_mem _ List.mem_cons_self) (by decide),
    ((getIpAddr_place holds_sharedDb ascii).1 0xffffffff 8).1 _
      (List.mem_cons_of_mem _ (List.mem_cons_of_mem _ List.mem_cons_self)) (by decide)⟩

end IPLocator

end Dotqoo.Client
