import Mathlib.Algebra.GroupWithZero.Nat
import Mathlib.Algebra.Order.Group.Nat

/-!
# Reading UTF-8 in pieces

`lossy` turns bytes into text and puts U+FFFD in the place of what is not UTF-8: a byte that starts
no character, or the longest beginning of a character that is not continued.

A character has one byte that is not a continuation byte, its first.  So a stream of UTF-8 has as
many of them as characters (`starts_encode`), and what is read from any bytes has at least as many
characters as there are such bytes, and one more when a continuation byte comes first
(`starts_le_length_lossy`).  Counting gives `flatMap_lossy_eq_iff`: a stream that is read in pieces,
each of them decoded by itself, comes out as the text exactly when no piece starts inside of a
character.
-/

namespace Utf8

/-! ## Encoding -/

def encode (text : List Char) : List UInt8 := text.flatMap String.utf8EncodeChar

@[simp] lemma encode_nil : encode [] = [] := rfl

lemma encode_cons (c : Char) (text : List Char) :
    encode (c :: text) = String.utf8EncodeChar c ++ encode text := List.flatMap_cons

lemma encode_append (text text' : List Char) : encode (text ++ text') = encode text ++ encode text' :=
  List.flatMap_append

/-- A newline comes from a newline only: no other character has this byte in its encoding. -/
lemma newline_mem_encode {text : List Char} (h : 10 ∈ encode text) : '\n' ∈ text := by
  obtain ⟨c, hc, hbyte⟩ := List.mem_flatMap.mp h
  have hof : ∀ n, n < 256 → (10 : UInt8) = UInt8.ofNat n → n = 10 := by
    intro n hn heq
    have hnat : (10 : UInt8).toNat = (UInt8.ofNat n).toNat := congrArg UInt8.toNat heq
    rw [UInt8.toNat_ofNat', Nat.mod_eq_of_lt hn] at hnat
    exact hnat.symm
  have hval : c.val.toNat = 10 := by
    rw [String.utf8EncodeChar] at hbyte
    split_ifs at hbyte with h1 h2 h3
    · exact hof _ (by omega) (List.mem_singleton.mp hbyte)
    · simp only [List.mem_cons, List.not_mem_nil, or_false] at hbyte
      rcases hbyte with hbyte | hbyte
      all_goals
        have := hof _ (by omega) hbyte
        omega
    · simp only [List.mem_cons, List.not_mem_nil, or_false] at hbyte
      rcases hbyte with hbyte | hbyte | hbyte
      all_goals
        have := hof _ (by omega) hbyte
        omega
    · simp only [List.mem_cons, List.not_mem_nil, or_false] at hbyte
      rcases hbyte with hbyte | hbyte | hbyte | hbyte
      all_goals
        have := hof _ (by omega) hbyte
        omega
  have hchar : c = '\n' := Char.ext (UInt32.toNat_inj.mp hval)
  exact hchar ▸ hc

lemma length_encode (text : List Char) : (encode text).length = (text.map Char.utf8Size).sum := by
  induction text with
  | nil => rfl
  | cons c text ih =>
    rw [encode_cons, List.length_append, String.length_utf8EncodeChar, ih, List.map_cons,
      List.sum_cons]

def IsContinuation (b : UInt8) : Prop := 0x80 ≤ b.toNat ∧ b.toNat ≤ 0xBF

instance : DecidablePred IsContinuation := fun b =>
  inferInstanceAs (Decidable (0x80 ≤ b.toNat ∧ b.toNat ≤ 0xBF))

/-! ## Decoding -/

/-- What a first byte announces: the number of bytes that continue it, and the bounds of the first
of them. -/
def firstByte (b : ℕ) : Option (ℕ × ℕ × ℕ) :=
  if b < 0x80 then some (0, 0x80, 0xBF)
  else if 0xC2 ≤ b ∧ b ≤ 0xDF then some (1, 0x80, 0xBF)
  else if 0xE0 ≤ b ∧ b ≤ 0xEF then
    -- no overlong forms, no surrogates
    some (2, if b = 0xE0 then 0xA0 else 0x80, if b = 0xED then 0x9F else 0xBF)
  else if 0xF0 ≤ b ∧ b ≤ 0xF4 then
    -- no overlong forms, nothing beyond U+10FFFF
    some (3, if b = 0xF0 then 0x90 else 0x80, if b = 0xF4 then 0x8F else 0xBF)
  else none

/-- How many bytes are taken as continuation when `owed` are announced. -/
def accepted : ℕ → ℕ → ℕ → List UInt8 → ℕ
  | owed + 1, low, high, b :: bytes =>
    if low ≤ b.toNat ∧ b.toNat ≤ high then 1 + accepted owed 0x80 0xBF bytes else 0
  | _, _, _, _ => 0

/-- The bits of a first byte that belong to the number, with so many bytes behind it. -/
def leadingBits : ℕ → ℕ → ℕ
  | 0, b => b
  | 1, b => b % 32
  | 2, b => b % 16
  | _, b => b % 8

/-- The number that a first byte and the bytes behind it write. -/
def codePoint (b : UInt8) (continuation : List UInt8) : ℕ :=
  continuation.foldl (fun value x => value * 64 + x.toNat % 64)
    (leadingBits continuation.length b.toNat)

def replacement : Char := '\uFFFD'

/-- The next character, and the number of bytes that it takes behind the first. -/
def item (b : UInt8) (bytes : List UInt8) : Char × ℕ :=
  match firstByte b.toNat with
  | none => (replacement, 0)
  | some (owed, low, high) =>
    let n := accepted owed low high bytes
    if n = owed then (Char.ofNat (codePoint b (bytes.take n)), n) else (replacement, n)

/-- The characters when `skip` bytes have been taken already. -/
def lossyFrom : ℕ → List UInt8 → List Char
  | _, [] => []
  | skip + 1, _ :: bytes => lossyFrom skip bytes
  | 0, b :: bytes => (item b bytes).1 :: lossyFrom (item b bytes).2 bytes

/-- `String::from_utf8_lossy`. -/
def lossy (bytes : List UInt8) : List Char := lossyFrom 0 bytes

@[simp] lemma lossy_nil : lossy [] = [] := rfl

lemma lossyFrom_eq (skip : ℕ) (bytes : List UInt8) :
    lossyFrom skip bytes = lossy (bytes.drop skip) := by
  induction bytes generalizing skip with
  | nil => cases skip <;> rfl
  | cons b bytes ih =>
    cases skip with
    | zero => rfl
    | succ skip => rw [lossyFrom, ih, List.drop_succ_cons]

lemma lossy_cons (b : UInt8) (bytes : List UInt8) :
    lossy (b :: bytes) = (item b bytes).1 :: lossy (bytes.drop (item b bytes).2) := by
  rw [lossy, lossyFrom, lossyFrom_eq]

/-! ### What is encoded is decoded -/

lemma accepted_cons {owed low high : ℕ} {b : UInt8} {bytes : List UInt8}
    (h : low ≤ b.toNat ∧ b.toNat ≤ high) :
    accepted (owed + 1) low high (b :: bytes) = 1 + accepted owed 0x80 0xBF bytes := if_pos h

lemma accepted_zero (low high : ℕ) (bytes : List UInt8) : accepted 0 low high bytes = 0 := by
  cases bytes <;> rfl

lemma lossy_complete {b : UInt8} {continuation rest : List UInt8} {low high : ℕ}
    (hfirst : firstByte b.toNat = some (continuation.length, low, high))
    (haccepted : accepted continuation.length low high (continuation ++ rest) =
      continuation.length) :
    lossy (b :: (continuation ++ rest)) = Char.ofNat (codePoint b continuation) :: lossy rest := by
  have hitem : item b (continuation ++ rest) =
      (Char.ofNat (codePoint b continuation), continuation.length) := by
    rw [item, hfirst]
    dsimp only
    rw [if_pos haccepted, haccepted, List.take_left]
  rw [lossy_cons, hitem, List.drop_left]

lemma lossy_one {b : UInt8} {rest : List UInt8} (hb : b.toNat < 0x80) :
    lossy (b :: rest) = Char.ofNat b.toNat :: lossy rest := by
  have hfirst : firstByte b.toNat = some (([] : List UInt8).length, 0x80, 0xBF) := if_pos hb
  exact lossy_complete hfirst (accepted_zero _ _ _)

lemma lossy_two {b x : UInt8} {rest : List UInt8} (hb : 0xC2 ≤ b.toNat ∧ b.toNat ≤ 0xDF)
    (hx : IsContinuation x) :
    lossy (b :: x :: rest) = Char.ofNat (b.toNat % 32 * 64 + x.toNat % 64) :: lossy rest := by
  have hfirst : firstByte b.toNat = some ([x].length, 0x80, 0xBF) := by
    rw [firstByte, if_neg (by omega), if_pos hb, List.length_singleton]
  have haccepted : accepted 1 0x80 0xBF (x :: rest) = 1 := by
    rw [accepted_cons hx, accepted_zero]
  exact lossy_complete hfirst haccepted

lemma lossy_three {b x y : UInt8} {rest : List UInt8} (hb : 0xE0 ≤ b.toNat ∧ b.toNat ≤ 0xEF)
    (hx : IsContinuation x) (hlow : b.toNat = 0xE0 → 0xA0 ≤ x.toNat)
    (hhigh : b.toNat = 0xED → x.toNat ≤ 0x9F) (hy : IsContinuation y) :
    lossy (b :: x :: y :: rest) =
      Char.ofNat ((b.toNat % 16 * 64 + x.toNat % 64) * 64 + y.toNat % 64) :: lossy rest := by
  have hfirst : firstByte b.toNat = some ([x, y].length,
      if b.toNat = 0xE0 then 0xA0 else 0x80, if b.toNat = 0xED then 0x9F else 0xBF) := by
    rw [firstByte, if_neg (by omega), if_neg (by omega), if_pos hb]
    rfl
  have hbounds : (if b.toNat = 0xE0 then 0xA0 else 0x80) ≤ x.toNat ∧
      x.toNat ≤ if b.toNat = 0xED then 0x9F else 0xBF := by
    obtain ⟨hx1, hx2⟩ := hx
    split_ifs <;> omega
  have haccepted : accepted 2 (if b.toNat = 0xE0 then 0xA0 else 0x80)
      (if b.toNat = 0xED then 0x9F else 0xBF) (x :: y :: rest) = 2 := by
    rw [accepted_cons hbounds, accepted_cons hy, accepted_zero]
  exact lossy_complete hfirst haccepted

lemma lossy_four {b x y z : UInt8} {rest : List UInt8} (hb : 0xF0 ≤ b.toNat ∧ b.toNat ≤ 0xF4)
    (hx : IsContinuation x) (hlow : b.toNat = 0xF0 → 0x90 ≤ x.toNat)
    (hhigh : b.toNat = 0xF4 → x.toNat ≤ 0x8F) (hy : IsContinuation y) (hz : IsContinuation z) :
    lossy (b :: x :: y :: z :: rest) =
      Char.ofNat (((b.toNat % 8 * 64 + x.toNat % 64) * 64 + y.toNat % 64) * 64 + z.toNat % 64) ::
        lossy rest := by
  have hfirst : firstByte b.toNat = some ([x, y, z].length,
      if b.toNat = 0xF0 then 0x90 else 0x80, if b.toNat = 0xF4 then 0x8F else 0xBF) := by
    rw [firstByte, if_neg (by omega), if_neg (by omega), if_neg (by omega), if_pos hb]
    rfl
  have hbounds : (if b.toNat = 0xF0 then 0x90 else 0x80) ≤ x.toNat ∧
      x.toNat ≤ if b.toNat = 0xF4 then 0x8F else 0xBF := by
    obtain ⟨hx1, hx2⟩ := hx
    split_ifs <;> omega
  have haccepted : accepted 3 (if b.toNat = 0xF0 then 0x90 else 0x80)
      (if b.toNat = 0xF4 then 0x8F else 0xBF) (x :: y :: z :: rest) = 3 := by
    rw [accepted_cons hbounds, accepted_cons hy, accepted_cons hz, accepted_zero]
  exact lossy_complete hfirst haccepted

lemma lossy_utf8EncodeChar_append (c : Char) (rest : List UInt8) :
    lossy (String.utf8EncodeChar c ++ rest) = c :: lossy rest := by
  have hvalid : c.toNat < 0xD800 ∨ 0xDFFF < c.toNat ∧ c.toNat < 0x110000 := c.valid
  have hbyte : ∀ n, n < 256 → (UInt8.ofNat n).toNat = n := fun n hn => UInt8.toNat_ofNat_of_lt hn
  have hcontinuation : ∀ n, n < 64 → IsContinuation (UInt8.ofNat (n + 0x80)) := by
    intro n hn
    rw [IsContinuation, hbyte _ (by omega)]
    omega
  have hchar : ∀ n, n = c.toNat → Char.ofNat n = c := fun n hn => hn ▸ Char.ofNat_toNat c
  rw [String.utf8EncodeChar]
  change c.toNat < 0xD800 ∨ _ at hvalid
  generalize hv : c.val.toNat = v
  have hv' : c.toNat = v := hv
  rw [hv'] at hvalid hchar
  split_ifs with h1 h2 h3
  · have hb := hbyte v (by omega)
    rw [List.singleton_append, lossy_one (by omega), hchar _ hb]
  · have hb := hbyte (v / 64 % 32 + 0xC0) (by omega)
    have hx := hbyte (v % 64 + 0x80) (by omega)
    refine (lossy_two (by omega) (hcontinuation _ (by omega))).trans ?_
    rw [hb, hx, hchar _ (by omega)]
    rfl
  · have hb := hbyte (v / 4096 % 16 + 0xE0) (by omega)
    have hx := hbyte (v / 64 % 64 + 0x80) (by omega)
    have hy := hbyte (v % 64 + 0x80) (by omega)
    refine (lossy_three (by omega) (hcontinuation _ (by omega)) (by omega) (by omega)
      (hcontinuation _ (by omega))).trans ?_
    rw [hb, hx, hy, hchar _ (by omega)]
    rfl
  · have hb := hbyte (v / 262144 % 8 + 0xF0) (by omega)
    have hx := hbyte (v / 4096 % 64 + 0x80) (by omega)
    have hy := hbyte (v / 64 % 64 + 0x80) (by omega)
    have hz := hbyte (v % 64 + 0x80) (by omega)
    refine (lossy_four (by omega) (hcontinuation _ (by omega)) (by omega) (by omega)
      (hcontinuation _ (by omega)) (hcontinuation _ (by omega))).trans ?_
    rw [hb, hx, hy, hz, hchar _ (by omega)]
    rfl

lemma lossy_encode_append (text : List Char) (rest : List UInt8) :
    lossy (encode text ++ rest) = text ++ lossy rest := by
  induction text with
  | nil => rfl
  | cons c text ih =>
    rw [encode_cons, List.append_assoc, lossy_utf8EncodeChar_append, ih, List.cons_append]

/-- **What is encoded is decoded.** -/
theorem lossy_encode (text : List Char) : lossy (encode text) = text := by
  have h := lossy_encode_append text []
  rwa [List.append_nil, lossy_nil, List.append_nil] at h

lemma encode_injective : Function.Injective encode := fun text text' h => by
  rw [← lossy_encode text, h, lossy_encode]

/-! ## Characters and the bytes that start them -/

/-- The number of bytes that continue nothing. -/
def starts (bytes : List UInt8) : ℕ := bytes.countP fun b => decide ¬IsContinuation b

lemma starts_append (bytes bytes' : List UInt8) :
    starts (bytes ++ bytes') = starts bytes + starts bytes' := List.countP_append

lemma starts_of_continuation {bytes : List UInt8} (h : ∀ b ∈ bytes, IsContinuation b) :
    starts bytes = 0 := by
  rw [starts, List.countP_eq_zero]
  intro b hb
  simpa using h b hb

/-- A character is one byte that starts it and bytes that continue it. -/
lemma utf8EncodeChar_eq (c : Char) : ∃ b continuation,
    String.utf8EncodeChar c = b :: continuation ∧ ¬IsContinuation b ∧
      ∀ x ∈ continuation, IsContinuation x := by
  have hbyte : ∀ n, n < 256 → (UInt8.ofNat n).toNat = n := fun n hn => UInt8.toNat_ofNat_of_lt hn
  have hcontinuation : ∀ n, n < 64 → IsContinuation (UInt8.ofNat (n + 0x80)) := by
    intro n hn
    rw [IsContinuation, hbyte _ (by omega)]
    omega
  have hstart : ∀ n, n < 256 → n < 0x80 ∨ 0xC0 ≤ n → ¬IsContinuation (UInt8.ofNat n) := by
    intro n hn hbounds
    rw [IsContinuation, hbyte n hn]
    omega
  rw [String.utf8EncodeChar]
  split_ifs with h1 h2 h3
  · exact ⟨_, [], rfl, hstart _ (by omega) (by omega), by simp⟩
  · refine ⟨_, [_], rfl, hstart _ (by omega) (by omega), ?_⟩
    simp only [List.mem_cons, List.not_mem_nil, or_false, forall_eq]
    exact hcontinuation _ (by omega)
  · refine ⟨_, [_, _], rfl, hstart _ (by omega) (by omega), ?_⟩
    simp only [List.mem_cons, List.not_mem_nil, or_false, forall_eq_or_imp, forall_eq]
    exact ⟨hcontinuation _ (by omega), hcontinuation _ (by omega)⟩
  · refine ⟨_, [_, _, _], rfl, hstart _ (by omega) (by omega), ?_⟩
    simp only [List.mem_cons, List.not_mem_nil, or_false, forall_eq_or_imp, forall_eq]
    exact ⟨hcontinuation _ (by omega), hcontinuation _ (by omega), hcontinuation _ (by omega)⟩

lemma starts_encode (text : List Char) : starts (encode text) = text.length := by
  induction text with
  | nil => rfl
  | cons c text ih =>
    obtain ⟨b, continuation, heq, hb, hcontinuation⟩ := utf8EncodeChar_eq c
    have hone : starts (b :: continuation) = 1 := by
      rw [starts, List.countP_cons_of_pos (by simpa using hb), ← starts,
        starts_of_continuation hcontinuation]
    rw [encode_cons, starts_append, heq, hone, ih, List.length_cons, Nat.add_comm]

/-- What an item takes behind its first byte continues it. -/
lemma isContinuation_of_mem_accepted {owed low high : ℕ} {bytes : List UInt8} {x : UInt8}
    (hlow : 0x80 ≤ low) (hhigh : high ≤ 0xBF)
    (h : x ∈ bytes.take (accepted owed low high bytes)) : IsContinuation x := by
  induction bytes generalizing owed low high with
  | nil => exact absurd h (by simp)
  | cons b bytes ih =>
    cases owed with
    | zero => exact absurd h List.not_mem_nil
    | succ owed =>
      rw [accepted] at h
      split_ifs at h with hbounds
      · rw [Nat.add_comm, List.take_succ_cons] at h
        rcases List.mem_cons.mp h with rfl | hmem
        · exact ⟨hlow.trans hbounds.1, hbounds.2.trans hhigh⟩
        · exact ih le_rfl le_rfl hmem
      · exact absurd h List.not_mem_nil

lemma bounds_of_firstByte {b owed low high : ℕ} (h : firstByte b = some (owed, low, high)) :
    0x80 ≤ low ∧ high ≤ 0xBF := by
  rw [firstByte] at h
  split_ifs at h <;> simp only [Option.some_inj, Prod.mk.injEq] at h <;> omega

lemma item_snd (b : UInt8) (bytes : List UInt8) :
    (item b bytes).2 = match firstByte b.toNat with
      | none => 0
      | some (owed, low, high) => accepted owed low high bytes := by
  rw [item]
  rcases firstByte b.toNat with _ | ⟨owed, low, high⟩
  · rfl
  · dsimp only
    split_ifs <;> rfl

lemma starts_item (b : UInt8) (bytes : List UInt8) :
    starts (bytes.take (item b bytes).2) = 0 := by
  refine starts_of_continuation fun x hx => ?_
  rw [item_snd] at hx
  rcases hfirst : firstByte b.toNat with _ | ⟨owed, low, high⟩
  · rw [hfirst] at hx
    exact absurd hx List.not_mem_nil
  · rw [hfirst] at hx
    obtain ⟨hlow, hhigh⟩ := bounds_of_firstByte hfirst
    exact isContinuation_of_mem_accepted hlow hhigh hx

/-- The first byte is in a character of its own, and so is every byte behind it that continues
nothing. -/
lemma starts_lt_length_lossy (b : UInt8) (bytes : List UInt8) :
    starts bytes < (lossy (b :: bytes)).length := by
  induction hn : bytes.length using Nat.strongRecOn generalizing b bytes with
  | ind n ih =>
    have hsplit : starts bytes = starts (bytes.drop (item b bytes).2) := by
      have happend := starts_append (bytes.take (item b bytes).2) (bytes.drop (item b bytes).2)
      rwa [List.take_append_drop, starts_item, Nat.zero_add] at happend
    rw [lossy_cons, List.length_cons, hsplit, Nat.lt_succ_iff]
    rcases hdrop : bytes.drop (item b bytes).2 with _ | ⟨b', rest⟩
    · exact Nat.zero_le _
    · have hshort : rest.length < n := by
        have hlength := congrArg List.length hdrop
        rw [List.length_drop, List.length_cons] at hlength
        omega
      have hrest := ih _ hshort b' rest rfl
      have hcons : starts (b' :: rest) ≤ starts rest + 1 := by
        rw [starts, List.countP_cons, ← starts]
        split_ifs <;> omega
      omega

/-- The bytes begin inside of a character. -/
def StartsInside (bytes : List UInt8) : Prop := ∃ b, bytes.head? = some b ∧ IsContinuation b

lemma not_startsInside_nil : ¬StartsInside [] := by
  rintro ⟨b, hb, -⟩
  exact Option.some_ne_none b hb.symm

lemma startsInside_cons {b : UInt8} {bytes : List UInt8} :
    StartsInside (b :: bytes) ↔ IsContinuation b := by
  simp [StartsInside]

instance : DecidablePred StartsInside
  | [] => isFalse not_startsInside_nil
  | _ :: _ => decidable_of_iff _ startsInside_cons.symm

/-- What is read has as many characters as bytes that continue nothing, and one more when the first
byte belongs to a character that began before. -/
lemma starts_le_length_lossy (bytes : List UInt8) :
    starts bytes + (if StartsInside bytes then 1 else 0) ≤ (lossy bytes).length := by
  cases bytes with
  | nil => simp [starts, not_startsInside_nil]
  | cons b bytes =>
    have hlt := starts_lt_length_lossy b bytes
    have hcons : starts (b :: bytes) = starts bytes + if IsContinuation b then 0 else 1 := by
      rw [starts, List.countP_cons, ← starts]
      by_cases hb : IsContinuation b <;> simp [hb]
    rw [hcons]
    simp only [startsInside_cons]
    split_ifs <;> omega

/-! ## Pieces -/

/-- Text that is cut between characters is two texts. -/
lemma exists_encode_of_append {before after : List UInt8} {text : List Char}
    (h : before ++ after = encode text) (hafter : ¬StartsInside after) :
    ∃ text₁ text₂, text = text₁ ++ text₂ ∧ before = encode text₁ ∧ after = encode text₂ := by
  induction text generalizing before with
  | nil =>
    obtain ⟨rfl, rfl⟩ := List.append_eq_nil_iff.mp h
    exact ⟨[], [], rfl, rfl, rfl⟩
  | cons c text ih =>
    cases before with
    | nil => exact ⟨[], c :: text, rfl, rfl, h⟩
    | cons b before =>
      obtain ⟨b', continuation, heq, -, hcontinuation⟩ := utf8EncodeChar_eq c
      rw [encode_cons, heq, List.cons_append, List.cons_append, List.cons.injEq] at h
      obtain ⟨rfl, hrest⟩ := h
      rcases List.append_eq_append_iff.mp hrest with
        ⟨missing, hmissing, hafter'⟩ | ⟨more, hmore, hafter'⟩
      · -- the cut is not inside of the first character, so nothing of it is missing
        rcases missing with _ | ⟨x, missing⟩
        · refine ⟨[c], text, rfl, ?_, hafter'⟩
          rw [encode_cons, heq, hmissing, List.append_nil, encode_nil, List.append_nil]
        · have hx : IsContinuation x := by
            refine hcontinuation x ?_
            rw [hmissing]
            exact List.mem_append_right before List.mem_cons_self
          rw [hafter', List.cons_append, startsInside_cons] at hafter
          exact absurd hx hafter
      · obtain ⟨text₁, text₂, rfl, rfl, rfl⟩ := ih hafter'.symm
        refine ⟨c :: text₁, text₂, rfl, ?_, rfl⟩
        rw [encode_cons, heq, hmore, List.cons_append]

lemma not_startsInside_flatten {pieces : List (List UInt8)}
    (h : ∀ piece ∈ pieces, ¬StartsInside piece) : ¬StartsInside pieces.flatten := by
  induction pieces with
  | nil => exact not_startsInside_nil
  | cons piece pieces ih =>
    rw [List.flatten_cons]
    cases piece with
    | nil => exact ih fun piece hpiece => h piece (List.mem_cons_of_mem _ hpiece)
    | cons b piece =>
      have hb := h _ List.mem_cons_self
      rw [startsInside_cons] at hb
      rwa [List.cons_append, startsInside_cons]

/-- Pieces that start at characters are decoded to the text. -/
lemma flatMap_lossy_eq {pieces : List (List UInt8)} {text : List Char}
    (hflatten : pieces.flatten = encode text) (h : ∀ piece ∈ pieces, ¬StartsInside piece) :
    pieces.flatMap lossy = text := by
  induction pieces generalizing text with
  | nil => exact encode_injective hflatten
  | cons piece pieces ih =>
    have hpieces : ∀ piece ∈ pieces, ¬StartsInside piece :=
      fun piece hpiece => h piece (List.mem_cons_of_mem _ hpiece)
    rw [List.flatten_cons] at hflatten
    obtain ⟨text₁, text₂, rfl, hpiece, hrest⟩ :=
      exists_encode_of_append hflatten (not_startsInside_flatten hpieces)
    rw [List.flatMap_cons, hpiece, lossy_encode, ih hrest hpieces]

lemma length_flatMap_lossy (pieces : List (List UInt8)) :
    starts pieces.flatten + pieces.countP (fun piece => decide (StartsInside piece)) ≤
      (pieces.flatMap lossy).length := by
  induction pieces with
  | nil => exact Nat.zero_le _
  | cons piece pieces ih =>
    have hpiece := starts_le_length_lossy piece
    rw [List.flatten_cons, starts_append, List.countP_cons, List.flatMap_cons, List.length_append]
    simp only [decide_eq_true_eq]
    omega

/-- **The pieces of a stream are decoded to its text exactly when none of them starts inside of a
character.** -/
theorem flatMap_lossy_eq_iff {pieces : List (List UInt8)} {text : List Char}
    (hflatten : pieces.flatten = encode text) :
    pieces.flatMap lossy = text ↔ ∀ piece ∈ pieces, ¬StartsInside piece := by
  refine ⟨fun heq piece hpiece hinside => ?_, flatMap_lossy_eq hflatten⟩
  have hlength := length_flatMap_lossy pieces
  rw [heq, hflatten, starts_encode] at hlength
  have hpos : 0 < pieces.countP fun piece => decide (StartsInside piece) :=
    List.countP_pos_iff.mpr ⟨piece, hpiece, decide_eq_true hinside⟩
  omega

end Utf8
