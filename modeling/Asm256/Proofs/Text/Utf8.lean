/-
Text to bytes in UTF-8 and back.

A character is written in up to four bytes.  The first says how many follow, and each of the others
holds six bits of the code point (`Utf8.Forms`):
* `Utf8.following?_of_toNat` — what follows a first byte, by its number;
* `Utf8.Forms.decodeFrom_append` — bytes that form a character are read as that character;
* `Utf8.forms_encode` — the bytes that a character is written in form that character.

The main result is `Utf8.decode_encode`.
-/
import Asm256.Text.Utf8
import Mathlib

namespace Asm256.Utf8

/-! ### Bytes that form a character -/

/-- The first byte is followed by these others, and with them it stands for the character. -/
structure Forms (first : UInt8) (others : List UInt8) (c : Char) : Prop where
  exists_ranges : ∃ ranges, following? first = some ranges ∧
    List.Forall₂ (fun (range : UInt8 × UInt8) b => range.1 ≤ b ∧ b ≤ range.2) ranges others
  character_eq : character first others = c

theorem matching_append {ranges : List (UInt8 × UInt8)} {others : List UInt8}
    (h : List.Forall₂ (fun range b => range.1 ≤ b ∧ b ≤ range.2) ranges others)
    (rest : List UInt8) : matching ranges (others ++ rest) = others := by
  induction h with
  | nil => rfl
  | @cons range b ranges others hb _ ih =>
    rw [List.cons_append, matching, ih, if_pos]
    simpa using hb

/-- **Bytes that form a character are read as that character.** -/
theorem Forms.decodeFrom_append {first : UInt8} {others : List UInt8} {c : Char} {cs : List Char}
    {rest : List UInt8} (h : Forms first others c)
    (hrest : ∀ position, decodeFrom position rest = .ok cs) (position : Nat) :
    decodeFrom position (first :: (others ++ rest)) = .ok (c :: cs) := by
  obtain ⟨ranges, hfollowing, hothers⟩ := h.exists_ranges
  rw [decodeFrom, hfollowing]
  simp only [matching_append hothers, hothers.length_eq, if_true, List.drop_left, hrest,
    h.character_eq]

/-- What follows a first byte, by its number. -/
theorem following?_of_toNat {first : UInt8} {n : Nat} (h : first.toNat = n) : following? first =
    if n < 0x80 then some []
    else if n < 0xC2 then none
    else if n < 0xE0 then some [(0x80, 0xBF)]
    else if n = 0xE0 then some [(0xA0, 0xBF), (0x80, 0xBF)]
    else if n = 0xED then some [(0x80, 0x9F), (0x80, 0xBF)]
    else if n < 0xF0 then some [(0x80, 0xBF), (0x80, 0xBF)]
    else if n = 0xF0 then some [(0x90, 0xBF), (0x80, 0xBF), (0x80, 0xBF)]
    else if n < 0xF4 then some [(0x80, 0xBF), (0x80, 0xBF), (0x80, 0xBF)]
    else if n = 0xF4 then some [(0x80, 0x8F), (0x80, 0xBF), (0x80, 0xBF)]
    else none := by
  subst h
  simp only [following?, UInt8.lt_iff_toNat_lt, ← UInt8.toNat_inj, UInt8.reduceToNat]

/-! ### The bytes of a character -/

variable {c : Char}

theorem toNat_byte (n offset : Nat) (h : n + offset < 256) :
    (UInt8.ofNat (n + offset)).toNat = n + offset := by
  rw [UInt8.toNat_ofNat', Nat.mod_eq_of_lt h]

/-- The byte that holds the last six bits of a number. -/
def trailing (n : Nat) : UInt8 := .ofNat (n % 64 + 128)

theorem toNat_trailing (n : Nat) : (trailing n).toNat = n % 64 + 128 :=
  toNat_byte (n % 64) 128 (by omega)

theorem trailing_mem {n : Nat} {lo hi : UInt8} (hlo : lo.toNat ≤ n % 64 + 128)
    (hhi : n % 64 + 128 ≤ hi.toNat) : lo ≤ trailing n ∧ trailing n ≤ hi := by
  rw [UInt8.le_iff_toNat_le, UInt8.le_iff_toNat_le, toNat_trailing]
  exact ⟨hlo, hhi⟩

theorem trailing_mem_all (n : Nat) : 0x80 ≤ trailing n ∧ trailing n ≤ 0xBF :=
  trailing_mem (Nat.le_add_left _ _) (by show n % 64 + 128 ≤ 191; omega)

/-- A code point is no surrogate. -/
theorem toNat_valid (c : Char) : c.toNat < 0xD800 ∨ 0xDFFF < c.toNat ∧ c.toNat < 0x110000 := c.valid

theorem forms_one (h : c.toNat ≤ 0x7F) : Forms (.ofNat c.toNat) [] c := by
  have hfirst : (UInt8.ofNat c.toNat).toNat = c.toNat := toNat_byte c.toNat 0 (by omega)
  constructor
  · refine ⟨[], ?_, .nil⟩
    rw [following?_of_toNat hfirst, if_pos (by omega)]
  · show Char.ofNat (UInt8.ofNat c.toNat).toNat = c
    rw [hfirst, Char.ofNat_toNat]

theorem forms_two (hlo : 0x7F < c.toNat) (hhi : c.toNat ≤ 0x7FF) :
    Forms (.ofNat (c.toNat / 64 % 32 + 192)) [trailing c.toNat] c := by
  have hfirst := toNat_byte (c.toNat / 64 % 32) 192 (by omega)
  constructor
  · refine ⟨[(0x80, 0xBF)], ?_, .cons (trailing_mem_all _) .nil⟩
    rw [following?_of_toNat hfirst, if_neg (by omega), if_neg (by omega), if_pos (by omega)]
  · show Char.ofNat (64 * (UInt8.toNat _ % 32) + (trailing c.toNat).toNat % 64) = c
    rw [hfirst, toNat_trailing, ← Char.ofNat_toNat c]
    congr 1
    rw [Char.ofNat_toNat]
    omega

/-- What follows the first of three bytes, which are those of no surrogate. -/
theorem exists_ranges_three (hlo : 0x7FF < c.toNat) (hhi : c.toNat ≤ 0xFFFF) :
    ∃ lo hi, following? (.ofNat (c.toNat / 4096 % 16 + 224)) = some [(lo, hi), (0x80, 0xBF)] ∧
      lo ≤ trailing (c.toNat / 64) ∧ trailing (c.toNat / 64) ≤ hi := by
  have hfirst := toNat_byte (c.toNat / 4096 % 16) 224 (by omega)
  have hvalid := toNat_valid c
  rw [following?_of_toNat hfirst, if_neg (by omega), if_neg (by omega), if_neg (by omega)]
  by_cases hlow : c.toNat / 4096 % 16 = 0
  · rw [if_pos (by omega)]
    exact ⟨_, _, rfl, trailing_mem (by show 160 ≤ _; omega) (by show _ ≤ 191; omega)⟩
  rw [if_neg (by omega)]
  by_cases hsurrogate : c.toNat / 4096 % 16 = 13
  · rw [if_pos (by omega)]
    exact ⟨_, _, rfl, trailing_mem (by show 128 ≤ _; omega) (by show _ ≤ 159; omega)⟩
  rw [if_neg (by omega), if_pos (by omega)]
  exact ⟨_, _, rfl, trailing_mem_all _⟩

theorem forms_three (hlo : 0x7FF < c.toNat) (hhi : c.toNat ≤ 0xFFFF) :
    Forms (.ofNat (c.toNat / 4096 % 16 + 224)) [trailing (c.toNat / 64), trailing c.toNat] c := by
  have hfirst := toNat_byte (c.toNat / 4096 % 16) 224 (by omega)
  obtain ⟨lo, hi, hfollowing, hsecond⟩ := exists_ranges_three hlo hhi
  refine ⟨⟨_, hfollowing, .cons hsecond (.cons (trailing_mem_all _) .nil)⟩, ?_⟩
  show Char.ofNat (64 * (64 * (UInt8.toNat _ % 16) + (trailing (c.toNat / 64)).toNat % 64) +
    (trailing c.toNat).toNat % 64) = c
  rw [hfirst, toNat_trailing, toNat_trailing]
  have hcode : 64 * (64 * ((c.toNat / 4096 % 16 + 224) % 16) + (c.toNat / 64 % 64 + 128) % 64) +
      (c.toNat % 64 + 128) % 64 = c.toNat := by omega
  rw [hcode, Char.ofNat_toNat]

/-- What follows the first of four bytes, which are those of no number that is too large. -/
theorem exists_ranges_four (hlo : 0xFFFF < c.toNat) : ∃ lo hi,
    following? (.ofNat (c.toNat / 262144 % 8 + 240)) =
      some [(lo, hi), (0x80, 0xBF), (0x80, 0xBF)] ∧
    lo ≤ trailing (c.toNat / 4096) ∧ trailing (c.toNat / 4096) ≤ hi := by
  have hfirst := toNat_byte (c.toNat / 262144 % 8) 240 (by omega)
  have hvalid := toNat_valid c
  rw [following?_of_toNat hfirst, if_neg (by omega), if_neg (by omega), if_neg (by omega),
    if_neg (by omega), if_neg (by omega), if_neg (by omega)]
  by_cases hlow : c.toNat / 262144 % 8 = 0
  · rw [if_pos (by omega)]
    exact ⟨_, _, rfl, trailing_mem (by show 144 ≤ _; omega) (by show _ ≤ 191; omega)⟩
  rw [if_neg (by omega)]
  by_cases hmiddle : c.toNat / 262144 % 8 < 4
  · rw [if_pos (by omega)]
    exact ⟨_, _, rfl, trailing_mem_all _⟩
  rw [if_neg (by omega), if_pos (by omega)]
  exact ⟨_, _, rfl, trailing_mem (by show 128 ≤ _; omega) (by show _ ≤ 143; omega)⟩

theorem forms_four (hlo : 0xFFFF < c.toNat) :
    Forms (.ofNat (c.toNat / 262144 % 8 + 240))
      [trailing (c.toNat / 4096), trailing (c.toNat / 64), trailing c.toNat] c := by
  have hfirst := toNat_byte (c.toNat / 262144 % 8) 240 (by omega)
  have hvalid := toNat_valid c
  obtain ⟨lo, hi, hfollowing, hsecond⟩ := exists_ranges_four hlo
  refine ⟨⟨_, hfollowing, .cons hsecond (.cons (trailing_mem_all _)
    (.cons (trailing_mem_all _) .nil))⟩, ?_⟩
  show Char.ofNat (64 * (64 * (64 * (UInt8.toNat _ % 8) +
    (trailing (c.toNat / 4096)).toNat % 64) + (trailing (c.toNat / 64)).toNat % 64) +
    (trailing c.toNat).toNat % 64) = c
  rw [hfirst, toNat_trailing, toNat_trailing, toNat_trailing]
  have hcode : 64 * (64 * (64 * ((c.toNat / 262144 % 8 + 240) % 8) +
      (c.toNat / 4096 % 64 + 128) % 64) + (c.toNat / 64 % 64 + 128) % 64) +
      (c.toNat % 64 + 128) % 64 = c.toNat := by omega
  rw [hcode, Char.ofNat_toNat]

/-- **The bytes that a character is written in form that character.** -/
theorem forms_encode (c : Char) :
    ∃ first others, String.utf8EncodeChar c = first :: others ∧ Forms first others c := by
  by_cases h₁ : c.toNat ≤ 0x7F
  · exact ⟨_, _, if_pos h₁, forms_one h₁⟩
  have hlong : String.utf8EncodeChar c = if c.toNat ≤ 0x7FF then _ else _ := if_neg h₁
  by_cases h₂ : c.toNat ≤ 0x7FF
  · exact ⟨_, _, hlong.trans (if_pos h₂), forms_two (Nat.not_le.1 h₁) h₂⟩
  have hlonger : String.utf8EncodeChar c = if c.toNat ≤ 0xFFFF then _ else _ :=
    hlong.trans (if_neg h₂)
  by_cases h₃ : c.toNat ≤ 0xFFFF
  · exact ⟨_, _, hlonger.trans (if_pos h₃), forms_three (Nat.not_le.1 h₂) h₃⟩
  · exact ⟨_, _, hlonger.trans (if_neg h₃), forms_four (Nat.not_le.1 h₃)⟩

/-! ### The bytes of a text -/

/-- The bytes of an array are read off one after the other, the last of them in front. -/
theorem toList_loop (bs : ByteArray) (i : Nat) (front : List UInt8) :
    ByteArray.toList.loop bs i front = front.reverse ++ bs.data.toList.drop i := by
  fun_induction ByteArray.toList.loop bs i front with
  | case1 i front hlt ih =>
    have hi : i < bs.data.toList.length := hlt
    have hget : bs.get! i = bs.data.toList[i] := getElem!_pos bs.data i hlt
    rw [ih, List.drop_eq_getElem_cons hi, List.reverse_cons, List.append_assoc, hget]
    rfl
  | case2 i front hle => rw [List.drop_of_length_le (Nat.not_lt.1 hle), List.append_nil]

theorem encode_eq (cs : List Char) :
    encode (String.ofList cs) = cs.flatMap String.utf8EncodeChar := by
  rw [encode, String.toUTF8_eq_toByteArray, ByteArray.toList, toList_loop]
  exact List.toList_data_toByteArray

theorem decodeFrom_encode (position : Nat) (cs : List Char) :
    decodeFrom position (cs.flatMap String.utf8EncodeChar) = .ok cs := by
  induction cs generalizing position with
  | nil => rw [List.flatMap_nil, decodeFrom]
  | cons c cs ih =>
    obtain ⟨first, others, hbytes, hforms⟩ := forms_encode c
    rw [List.flatMap_cons, hbytes, List.cons_append]
    exact hforms.decodeFrom_append ih position

/-- **Bytes that a text is written in are read as that text.** -/
theorem decode_encode (cs : List Char) : decode (encode (String.ofList cs)) = .ok cs := by
  rw [encode_eq, decode, decodeFrom_encode]

end Asm256.Utf8
