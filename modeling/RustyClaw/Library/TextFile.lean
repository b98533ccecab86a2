import RustyClaw.Library.Utf8

/-!
# Text files

A file has bytes.  `decode` reads them as a text, which only the encodings of texts allow
(`decode_eq_some_iff`).  A write that ends early leaves the first bytes of an encoding:
`decode_take` says that these are read as a text that is shorter, or not at all.
-/

namespace Utf8

variable {text read : List Char} {bytes : List UInt8}

/-- `fs::read_to_string`, for what is in the file. -/
def decode (bytes : List UInt8) : Option (List Char) :=
  if encode (lossy bytes) = bytes then some (lossy bytes) else none

lemma decode_eq_some_iff : decode bytes = some text ↔ bytes = encode text := by
  rw [decode]
  constructor
  · intro h
    split at h
    · next hvalid => rw [← Option.some_inj.mp h, hvalid]
    · cases h
  · rintro rfl
    rw [lossy_encode, if_pos rfl]

lemma decode_encode (text : List Char) : decode (encode text) = some text :=
  decode_eq_some_iff.mpr rfl

/-- An encoding that begins another one is that of a beginning. -/
lemma prefix_of_encode (h : encode read <+: encode text) : read <+: text := by
  obtain ⟨rest, hrest⟩ := h
  have hlossy := congrArg lossy hrest
  rw [lossy_encode_append, lossy_encode] at hlossy
  exact ⟨_, hlossy⟩

lemma encode_prefix (h : read <+: text) : encode read <+: encode text := by
  obtain ⟨rest, rfl⟩ := h
  exact ⟨encode rest, (encode_append read rest).symm⟩

/-- What is read when a text has been cut. -/
lemma decode_take {n : ℕ} (hn : n < (encode text).length)
    (h : decode ((encode text).take n) = some read) :
    ∃ m, m < text.length ∧ read = text.take m := by
  have hread := decode_eq_some_iff.mp h
  have hfront : read <+: text := prefix_of_encode (hread ▸ List.take_prefix n _)
  refine ⟨read.length, ?_, List.prefix_iff_eq_take.mp hfront⟩
  apply Nat.lt_of_le_of_ne hfront.length_le
  intro hlength
  obtain rfl := hfront.eq_of_length hlength
  have hshort := congrArg List.length hread
  rw [List.length_take, Nat.min_eq_left hn.le] at hshort
  exact absurd hshort hn.ne

end Utf8
