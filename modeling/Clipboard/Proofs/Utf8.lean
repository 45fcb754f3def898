import Clipboard.Utf8

/-!
# UTF-8 there and back

A character that was written is read again, whatever follows it (`next_append`); hence so is a text
(`decodeLossy_encode_append`, `decode?_encode`). Only the character NUL is written with a zero byte.
-/

namespace Clipboard.Utf8

theorem toNat_ofNat {n : Nat} (h : n < 256) : (UInt8.ofNat n).toNat = n := by
  rw [UInt8.toNat_ofNat']
  exact Nat.mod_eq_of_lt h

/-- The number of a character is the one that it was made of. -/
theorem toNat_char_ofNat {n : Nat} (h : n.isValidChar) : (Char.ofNat n).toNat = n := by
  rw [Char.ofNat, dif_pos h]
  rfl

/-- The code points of characters: no surrogates, none above U+10FFFF. -/
theorem toNat_valid (c : Char) : c.toNat < 0xD800 ∨ (0xDFFF < c.toNat ∧ c.toNat < 0x110000) :=
  c.valid

/-- What writing a character means for reading it: a leading byte that tells the length, and bytes
that make up the character together with it. -/
structure Writes (c : Char) (lead : UInt8) (others : Bytes) : Prop where
  bytes : encodeChar c = lead :: others
  length : length? lead = some (others.length + 1)
  next : ∀ rest, next lead (others ++ rest) = (some c, rest)

theorem isTail_ofNat {n : Nat} (h : n < 0x40) : isTail (UInt8.ofNat (0x80 + n)) = true := by
  rw [isTail, toNat_ofNat (by omega)]
  simp
  omega

theorem low_ofNat {n : Nat} (h : n < 0x40) : low (UInt8.ofNat (0x80 + n)) = n := by
  rw [low, toNat_ofNat (by omega)]
  omega

theorem writes_one {c : Char} (h : c.toNat < 0x80) : ∃ lead others, Writes c lead others := by
  have hlead := toNat_ofNat (show c.toNat < 256 by omega)
  refine ⟨UInt8.ofNat c.toNat, [], by simp [encodeChar, h], ?_, ?_⟩
  · simp [length?, hlead, h]
  · intro rest
    simp [Utf8.next, length?, hlead, h, Char.ofNat_toNat]

theorem writes_two {c : Char} (h₁ : ¬c.toNat < 0x80) (h₂ : c.toNat < 0x800) :
    ∃ lead others, Writes c lead others := by
  have hlead := toNat_ofNat (show 0xC0 + c.toNat / 0x40 < 256 by omega)
  have hlength : length? (UInt8.ofNat (0xC0 + c.toNat / 0x40)) = some 2 := by
    rw [length?, hlead]
    rw [if_neg (by omega), if_neg (by omega), if_pos (by omega)]
  refine ⟨UInt8.ofNat (0xC0 + c.toNat / 0x40), [UInt8.ofNat (0x80 + c.toNat % 0x40)],
    by simp [encodeChar, h₁, h₂], hlength, ?_⟩
  intro rest
  have hlow : c.toNat % 0x40 < 0x40 := by omega
  rw [Utf8.next, hlength]
  simp only [List.cons_append, List.nil_append, next2, isTail_ofNat hlow, low_ofNat hlow, hlead,
    if_true]
  rw [show (0xC0 + c.toNat / 0x40) % 0x20 * 0x40 + c.toNat % 0x40 = c.toNat by omega,
    Char.ofNat_toNat]

theorem writes_three {c : Char} (h₂ : ¬c.toNat < 0x800) (h₃ : c.toNat < 0x10000) :
    ∃ lead others, Writes c lead others := by
  have hvalid := toNat_valid c
  have hlead := toNat_ofNat (show 0xE0 + c.toNat / 0x1000 < 256 by omega)
  have hsecond := toNat_ofNat (show 0x80 + c.toNat / 0x40 % 0x40 < 256 by omega)
  have hlength : length? (UInt8.ofNat (0xE0 + c.toNat / 0x1000)) = some 3 := by
    rw [length?, hlead]
    rw [if_neg (by omega), if_neg (by omega), if_neg (by omega), if_pos (by omega)]
  have hfits : isSecond (UInt8.ofNat (0xE0 + c.toNat / 0x1000))
      (UInt8.ofNat (0x80 + c.toNat / 0x40 % 0x40)) = true := by
    rw [isSecond, isTail, hlead, hsecond]
    repeat' split
    all_goals
      simp only [Bool.and_eq_true, decide_eq_true_eq]
      omega
  refine ⟨UInt8.ofNat (0xE0 + c.toNat / 0x1000),
    [UInt8.ofNat (0x80 + c.toNat / 0x40 % 0x40), UInt8.ofNat (0x80 + c.toNat % 0x40)],
    ?_, hlength, ?_⟩
  · rw [encodeChar]
    rw [if_neg (by omega), if_neg h₂, if_pos h₃]
  · intro rest
    have hmid : c.toNat / 0x40 % 0x40 < 0x40 := by omega
    have hlow : c.toNat % 0x40 < 0x40 := by omega
    rw [Utf8.next, hlength]
    simp only [List.cons_append, List.nil_append, next3, hfits, isTail_ofNat hlow, low_ofNat hlow,
      low_ofNat hmid, hlead, if_true]
    rw [show (0xE0 + c.toNat / 0x1000) % 0x10 * 0x1000 + c.toNat / 0x40 % 0x40 * 0x40
      + c.toNat % 0x40 = c.toNat by omega, Char.ofNat_toNat]

theorem writes_four {c : Char} (h₃ : ¬c.toNat < 0x10000) : ∃ lead others, Writes c lead others := by
  have hvalid := toNat_valid c
  have hlead := toNat_ofNat (show 0xF0 + c.toNat / 0x40000 < 256 by omega)
  have hsecond := toNat_ofNat (show 0x80 + c.toNat / 0x1000 % 0x40 < 256 by omega)
  have hlength : length? (UInt8.ofNat (0xF0 + c.toNat / 0x40000)) = some 4 := by
    rw [length?, hlead]
    rw [if_neg (by omega), if_neg (by omega), if_neg (by omega), if_neg (by omega),
      if_pos (by omega)]
  have hfits : isSecond (UInt8.ofNat (0xF0 + c.toNat / 0x40000))
      (UInt8.ofNat (0x80 + c.toNat / 0x1000 % 0x40)) = true := by
    rw [isSecond, isTail, hlead, hsecond]
    repeat' split
    all_goals
      simp only [Bool.and_eq_true, decide_eq_true_eq]
      omega
  refine ⟨UInt8.ofNat (0xF0 + c.toNat / 0x40000),
    [UInt8.ofNat (0x80 + c.toNat / 0x1000 % 0x40), UInt8.ofNat (0x80 + c.toNat / 0x40 % 0x40),
      UInt8.ofNat (0x80 + c.toNat % 0x40)], ?_, hlength, ?_⟩
  · rw [encodeChar]
    rw [if_neg (by omega), if_neg (by omega), if_neg h₃]
  · intro rest
    have hhigh : c.toNat / 0x1000 % 0x40 < 0x40 := by omega
    have hmid : c.toNat / 0x40 % 0x40 < 0x40 := by omega
    have hlow : c.toNat % 0x40 < 0x40 := by omega
    rw [Utf8.next, hlength]
    simp only [List.cons_append, List.nil_append, next4, hfits, isTail_ofNat hmid,
      isTail_ofNat hlow, low_ofNat hlow, low_ofNat hmid, low_ofNat hhigh, hlead, if_true]
    rw [show (0xF0 + c.toNat / 0x40000) % 0x08 * 0x40000 + c.toNat / 0x1000 % 0x40 * 0x1000
      + c.toNat / 0x40 % 0x40 * 0x40 + c.toNat % 0x40 = c.toNat by omega, Char.ofNat_toNat]

/-- **Every character is written so that it can be read.** -/
theorem exists_writes (c : Char) : ∃ lead others, Writes c lead others := by
  by_cases h₁ : c.toNat < 0x80
  · exact writes_one h₁
  · by_cases h₂ : c.toNat < 0x800
    · exact writes_two h₁ h₂
    · by_cases h₃ : c.toNat < 0x10000
      · exact writes_three h₂ h₃
      · exact writes_four h₃

theorem char?_encodeChar (c : Char) : char? (encodeChar c) = some c := by
  obtain ⟨lead, others, hbytes, -, hnext⟩ := exists_writes c
  have hnext := hnext []
  rw [List.append_nil] at hnext
  simp [hbytes, char?, hnext]

/-! ## Texts -/

@[simp] theorem encode_nil : encode [] = [] := rfl

theorem encode_cons (c : Char) (cs : List Char) : encode (c :: cs) = encodeChar c ++ encode cs := rfl

theorem encode_append (cs ds : List Char) : encode (cs ++ ds) = encode cs ++ encode ds :=
  List.flatMap_append

@[simp] theorem decodeLossy_nil : decodeLossy [] = [] := by rw [decodeLossy]

theorem decodeLossy_encodeChar_append (c : Char) (rest : Bytes) :
    decodeLossy (encodeChar c ++ rest) = c :: decodeLossy rest := by
  obtain ⟨lead, others, hbytes, -, hnext⟩ := exists_writes c
  rw [hbytes, List.cons_append, decodeLossy, hnext rest]
  rfl

/-- A text that was written is read, and then what follows it. -/
theorem decodeLossy_encode_append (cs : List Char) (rest : Bytes) :
    decodeLossy (encode cs ++ rest) = cs ++ decodeLossy rest := by
  induction cs with
  | nil => rfl
  | cons c cs ih =>
    rw [encode_cons, List.append_assoc, decodeLossy_encodeChar_append, ih, List.cons_append]

theorem decodeLossy_encode (cs : List Char) : decodeLossy (encode cs) = cs := by
  have h := decodeLossy_encode_append cs []
  rwa [List.append_nil, decodeLossy_nil, List.append_nil] at h

/-- What was written is well-formed. -/
theorem decode?_encode (cs : List Char) : decode? (encode cs) = some cs := by
  induction cs with
  | nil => rw [encode_nil, decode?]
  | cons c cs ih =>
    obtain ⟨lead, others, hbytes, -, hnext⟩ := exists_writes c
    rw [encode_cons, hbytes, List.cons_append, decode?, hnext (encode cs)]
    simp [ih]

/-! ## Zero bytes -/

theorem ofNat_ne_zero {n : Nat} (h₀ : n ≠ 0) (h : n < 256) : UInt8.ofNat n ≠ 0 := by
  intro he
  have := congrArg UInt8.toNat he
  rw [toNat_ofNat h] at this
  exact h₀ this

/-- Only NUL is written with a zero byte. -/
theorem ne_zero_of_mem_encodeChar {c : Char} (hc : c ≠ '\x00') :
    ∀ b ∈ encodeChar c, b ≠ 0 := by
  have hnul : c.toNat ≠ 0 := by
    intro h0
    exact hc (by rw [← Char.ofNat_toNat c, h0])
  have hvalid := toNat_valid c
  intro b hb
  simp only [encodeChar] at hb
  split at hb
  · simp only [List.mem_cons, List.not_mem_nil, or_false] at hb
    rw [hb]
    exact ofNat_ne_zero hnul (by omega)
  · split at hb
    · simp only [List.mem_cons, List.not_mem_nil, or_false] at hb
      rcases hb with rfl | rfl <;> exact ofNat_ne_zero (by omega) (by omega)
    · split at hb
      · simp only [List.mem_cons, List.not_mem_nil, or_false] at hb
        rcases hb with rfl | rfl | rfl <;> exact ofNat_ne_zero (by omega) (by omega)
      · simp only [List.mem_cons, List.not_mem_nil, or_false] at hb
        rcases hb with rfl | rfl | rfl | rfl <;> exact ofNat_ne_zero (by omega) (by omega)

end Clipboard.Utf8
