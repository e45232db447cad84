import Mathlib.Data.List.Basic

/-!
# Self-delimiting streams

What a decoder has to do with an encoder for a cut stream to be noticed: it
inverts whole streams, and takes no proper prefix of one. For such a pair, a
stream written into a buffer arrives exactly if it fits (`dec_take_iff`).
-/

namespace Dotqoo.Lib

variable {α β : Type} {enc : α → List β} {dec : List β → Option α}

/-- `dec` inverts `enc` and rejects what is cut short. -/
structure SelfDelimiting (enc : α → List β) (dec : List β → Option α) : Prop where
  inverts : ∀ x, dec (enc x) = some x
  rejects : ∀ x p, p <+: enc x → p ≠ enc x → dec p = none

namespace SelfDelimiting

/-- A stream cut to a buffer is rejected. -/
theorem dec_take_of_lt (h : SelfDelimiting enc dec) {x : α} {room : Nat}
    (hlt : room < (enc x).length) : dec ((enc x).take room) = none := by
  apply h.rejects x _ (List.take_prefix room (enc x))
  intro heq
  have hlen := congrArg List.length heq
  rw [List.length_take] at hlen
  omega

/-- A stream cut to a buffer decodes exactly if nothing was cut. -/
theorem dec_take_iff (h : SelfDelimiting enc dec) {x : α} {room : Nat} :
    dec ((enc x).take room) = some x ↔ (enc x).length ≤ room := by
  constructor
  · intro hsome
    by_contra hlong
    rw [h.dec_take_of_lt (by omega)] at hsome
    cases hsome
  · intro hfits
    rw [List.take_of_length_le hfits]
    exact h.inverts x

end SelfDelimiting

end Dotqoo.Lib
