import Clipboard.Proofs.Charset

/-!
# Charsets of one byte per character

Such a charset has fewer characters than there are. A character that one of its bytes reads as,
other than U+FFFD, is `Readable` in it; `legible` puts a question mark for any other.

`decode_encode_single` says what comes back of a text: its readable characters as they are, and a
question mark for each of the others. There is one exception. Code page 437 reads a house for the
byte 0x7F, but writes that byte for DEL too, so that DEL comes back as a house.
-/

namespace Clipboard

/-! ## The tables -/

namespace CodePage

variable {c : Char}

theorem sameCodePoint_ofNat (h : c.toNat ≤ 0xFF) : sameCodePoint (UInt8.ofNat c.toNat) = c := by
  rw [sameCodePoint, UInt8.toNat_ofNat_of_lt' (Nat.lt_succ_of_le h), Char.ofNat_toNat]

/-- Where a character is found in a table, it stands. -/
theorem getD_of_idxOf? {table : List Char} {i : Nat} (h : table.idxOf? c = some i) (other : Char) :
    i < table.length ∧ table.getD i other = c := by
  obtain ⟨hlt, hc, -⟩ := List.idxOf?_eq_some_iff.mp h
  refine ⟨hlt, ?_⟩
  rw [List.getD_eq_getElem?_getD, List.getElem?_eq_getElem hlt, Option.getD_some, hc]

theorem toNat_highByte {i : Nat} (h : i < 0x80) : (UInt8.ofNat (0x80 + i)).toNat = 0x80 + i :=
  UInt8.toNat_ofNat_of_lt' (show 0x80 + i < 0x100 by omega)

/-! A character is written as a byte that reads as it, or as a question mark. -/

theorem asciiChar_asciiByte (c : Char) :
    asciiChar (asciiByte c) = c ∨ asciiByte c = questionMark := by
  unfold asciiByte
  split
  · next hlt =>
    refine Or.inl ?_
    rw [asciiChar, UInt8.toNat_ofNat_of_lt' (show c.toNat < 0x100 by omega), if_pos hlt,
      sameCodePoint_ofNat (by omega)]
  · exact Or.inr rfl

theorem latin1Char_latin1Byte (c : Char) :
    latin1Char (latin1Byte c) = c ∨ latin1Byte c = questionMark := by
  unfold latin1Byte
  split
  · next hle => exact Or.inl (sameCodePoint_ofNat hle)
  · exact Or.inr rfl

theorem windows1252Char_windows1252Byte (c : Char) :
    windows1252Char (windows1252Byte c) = c ∨ windows1252Byte c = questionMark := by
  unfold windows1252Byte
  dsimp only
  split
  · next hown =>
    refine Or.inl ?_
    simp only [Bool.or_eq_true, Bool.and_eq_true, decide_eq_true_eq] at hown
    rw [windows1252Char, UInt8.toNat_ofNat_of_lt' (show c.toNat < 0x100 by omega),
      if_neg (by simp only [Bool.and_eq_true, decide_eq_true_eq]; omega),
      sameCodePoint_ofNat (by omega)]
  · split
    · exact Or.inr rfl
    · split
      · next i hi =>
        obtain ⟨hlt, hc⟩ := getD_of_idxOf? hi '\ufffd'
        have hlt : i < 0x20 := hlt
        refine Or.inl ?_
        rw [windows1252Char, toNat_highByte (by omega),
          if_pos (by simp only [Bool.and_eq_true, decide_eq_true_eq]; omega),
          Nat.add_sub_cancel_left, hc]
      · exact Or.inr rfl

/-- But for DEL, of which code page 437 has none. -/
theorem cp437Char_cp437Byte (h : c ≠ '\x7f') :
    cp437Char (cp437Byte c) = c ∨ cp437Byte c = questionMark := by
  have hne : c.toNat ≠ 0x7F := fun hc => h (Char.toNat_inj.mp hc)
  unfold cp437Byte
  split
  · next hlt =>
    refine Or.inl ?_
    rw [cp437Char, UInt8.toNat_ofNat_of_lt' (show c.toNat < 0x100 by omega), if_pos (by omega),
      sameCodePoint_ofNat (by omega)]
  · split
    · next hhouse => exact Or.inl (by rw [hhouse]; decide)
    · split
      · next i hi =>
        obtain ⟨hlt, hc⟩ := getD_of_idxOf? hi '\ufffd'
        have hlt : i < 0x80 := hlt
        refine Or.inl ?_
        rw [cp437Char, toNat_highByte hlt, if_neg (by omega), if_neg (by omega),
          Nat.add_sub_cancel_left, hc]
      · exact Or.inr rfl

end CodePage

namespace Charset

open CodePage (questionMark)

variable {cs : Charset} {c : Char} {text : List Char}

/-! ## One character -/

/-- Some byte of the charset reads as the character, and not as nothing. -/
def Readable (cs : Charset) (c : Char) : Prop := c ≠ '\ufffd' ∧ ∃ b, cs.decode [b] = [c]

instance (cs : Charset) (c : Char) : Decidable (cs.Readable c) :=
  haveI : Decidable (∃ b, cs.decode [b] = [c]) :=
    decidable_of_iff (∃ n, n < 0x100 ∧ cs.decode [UInt8.ofNat n] = [c])
      ⟨fun ⟨n, _, hn⟩ => ⟨_, hn⟩, fun ⟨b, hb⟩ => ⟨b.toNat, b.toNat_lt, by rwa [UInt8.ofNat_toNat]⟩⟩
  inferInstanceAs (Decidable (_ ∧ _))

/-- The character if it can be read, and a question mark otherwise. -/
def legible (cs : Charset) (c : Char) : Char := if cs.Readable c then c else '?'

theorem Single.of_isUnicode (hcs : cs.isUnicode = false) : ∃ byte char, cs.Single byte char := by
  cases cs with
  | utf8 | utf16 | utf16le | utf16be => cases hcs
  | usAscii | latin1 | windows1252 | ibm437 =>
    exact single_of_not_isWide rfl (fun hutf8 => by cases hutf8)

theorem Single.keeps_or_replaced {byte : Char → UInt8} {char : UInt8 → Char}
    (h : cs.Single byte char) (hc : char (byte c) = c ∨ byte c = questionMark) :
    cs.Keeps c ∨ cs.charBytes c = [questionMark] := by
  refine hc.imp (h.keeps_iff c).mpr (fun hreplaced => ?_)
  rw [h.charBytes_eq, hreplaced]

theorem keeps_or_replaced (hcs : cs.isUnicode = false) (hdel : ¬(cs = .ibm437 ∧ c = '\x7f')) :
    cs.Keeps c ∨ cs.charBytes c = [questionMark] := by
  cases cs with
  | utf8 | utf16 | utf16le | utf16be => cases hcs
  | usAscii =>
    have hsingle : usAscii.Single _ _ := ⟨fun _ => rfl, fun _ => rfl, by decide⟩
    exact hsingle.keeps_or_replaced (CodePage.asciiChar_asciiByte c)
  | latin1 =>
    have hsingle : latin1.Single _ _ := ⟨fun _ => rfl, fun _ => rfl, by decide⟩
    exact hsingle.keeps_or_replaced (CodePage.latin1Char_latin1Byte c)
  | windows1252 =>
    have hsingle : windows1252.Single _ _ := ⟨fun _ => rfl, fun _ => rfl, by decide⟩
    exact hsingle.keeps_or_replaced (CodePage.windows1252Char_windows1252Byte c)
  | ibm437 =>
    have hsingle : ibm437.Single _ _ := ⟨fun _ => rfl, fun _ => rfl, by decide⟩
    exact hsingle.keeps_or_replaced (CodePage.cp437Char_cp437Byte (fun hc => hdel ⟨rfl, hc⟩))

/-- What a byte reads as is kept. The byte that is written for it may be another one. -/
theorem keeps_of_readable (hcs : cs.isUnicode = false) (h : cs.Readable c) : cs.Keeps c := by
  obtain ⟨hc, b, hb⟩ := h
  have hall : ∀ n < 0x100, cs.decode [UInt8.ofNat n] = ['\ufffd'] ∨
      cs.decode (cs.encode (cs.decode [UInt8.ofNat n])) = cs.decode [UInt8.ofNat n] := by
    cases cs with
    | utf8 | utf16 | utf16le | utf16be => cases hcs
    | usAscii | latin1 | windows1252 | ibm437 => decide +kernel
  have hbyte := hall b.toNat b.toNat_lt
  rw [UInt8.ofNat_toNat, hb] at hbyte
  rcases hbyte with hnone | hkept
  · exact absurd (List.singleton_inj.mp hnone) hc
  · exact hkept

theorem readable_of_keeps (hcs : cs.isUnicode = false) (hc : c ≠ '\ufffd') (h : cs.Keeps c) :
    cs.Readable c := by
  obtain ⟨byte, char, hsingle⟩ := Single.of_isUnicode hcs
  refine ⟨hc, byte c, ?_⟩
  rw [hsingle.decode_eq, List.map_singleton, (hsingle.keeps_iff c).mp h]

theorem charBytes_replacement (hcs : cs.isUnicode = false) :
    cs.charBytes '\ufffd' = [questionMark] := by
  cases cs with
  | utf8 | utf16 | utf16le | utf16be => cases hcs
  | usAscii | latin1 | windows1252 | ibm437 => decide

theorem decode_questionMark (hcs : cs.isUnicode = false) : cs.decode [questionMark] = ['?'] := by
  cases cs with
  | utf8 | utf16 | utf16le | utf16be => cases hcs
  | usAscii | latin1 | windows1252 | ibm437 => decide

/-- What a character is after it has been written and read. -/
def returned (cs : Charset) (c : Char) : Char :=
  if cs = .ibm437 ∧ c = '\x7f' then '⌂' else cs.legible c

/-- **A character comes back if it can be read**, and as a question mark otherwise. -/
theorem decode_charBytes (hcs : cs.isUnicode = false) (c : Char) :
    cs.decode (cs.charBytes c) = [cs.returned c] := by
  have hencode : cs.encode [c] = cs.charBytes c := by
    obtain ⟨byte, char, hsingle⟩ := Single.of_isUnicode hcs
    rw [encode_of_ne_utf16 hsingle.ne_utf16, List.flatMap_singleton]
  by_cases hdel : cs = .ibm437 ∧ c = '\x7f'
  · obtain ⟨rfl, rfl⟩ := hdel
    decide
  rw [returned, if_neg hdel, legible]
  split
  · next hreadable =>
    rw [← hencode]
    exact keeps_of_readable hcs hreadable
  · next hnot =>
    have hreplaced : cs.charBytes c = [questionMark] := by
      by_cases hc : c = '\ufffd'
      · rw [hc, charBytes_replacement hcs]
      · exact (keeps_or_replaced hcs hdel).resolve_left
          (fun hkeeps => hnot (readable_of_keeps hcs hc hkeeps))
    rw [hreplaced, decode_questionMark hcs]

/-- No character but DEL is read as another one. -/
theorem returned_eq_legible_iff : cs.returned c = cs.legible c ↔ ¬(cs = .ibm437 ∧ c = '\x7f') := by
  constructor
  · rintro h ⟨rfl, rfl⟩
    revert h
    decide +kernel
  · intro h
    rw [returned, if_neg h]

/-! ## A text -/

theorem length_encode_single (hcs : cs.isUnicode = false) (text : List Char) :
    (cs.encode text).length = text.length := by
  obtain ⟨byte, char, hsingle⟩ := Single.of_isUnicode hcs
  rw [encode_of_ne_utf16 hsingle.ne_utf16, funext hsingle.charBytes_eq, ← List.map_eq_flatMap,
    List.length_map]

theorem decode_encode_eq_map (hcs : cs.isUnicode = false) (text : List Char) :
    cs.decode (cs.encode text) = text.map cs.returned := by
  obtain ⟨byte, char, hsingle⟩ := Single.of_isUnicode hcs
  rw [encode_of_ne_utf16 hsingle.ne_utf16]
  induction text with
  | nil => exact hsingle.decode_eq []
  | cons c text ih =>
    have hc := decode_charBytes hcs c
    rw [hsingle.decode_eq] at hc ih ⊢
    rw [List.flatMap_cons, List.map_append, hc, ih, List.map_cons, List.singleton_append]

/-- **What comes back of a text**, in a charset of one byte per character: as many bytes are written
as there are characters, and what is read is the text with a question mark for every character that
no byte reads as. In code page 437 that is so of just the texts without DEL, which comes back as a
house. -/
theorem decode_encode_single (hcs : cs.isUnicode = false) (text : List Char) :
    (cs.encode text).length = text.length ∧
      cs.decode (cs.encode text) = text.map cs.returned ∧
      (cs.decode (cs.encode text) = text.map cs.legible ↔ ¬(cs = .ibm437 ∧ '\x7f' ∈ text)) := by
  refine ⟨length_encode_single hcs text, decode_encode_eq_map hcs text, ?_⟩
  rw [decode_encode_eq_map hcs, List.map_inj_left]
  simp only [returned_eq_legible_iff]
  constructor
  · rintro h ⟨hcs, hdel⟩
    exact h '\x7f' hdel ⟨hcs, rfl⟩
  · rintro h c hc ⟨hcs, rfl⟩
    exact h ⟨hcs, hc⟩

/-- A house and DEL, a character of the table, one that there is none of and a control. -/
theorem decode_encode_single_ibm437 :
    let text := ['⌂', 'Ç', '\u4e2d', '\x1b', '\x7f', '\u0080']
    Charset.ibm437.isUnicode = false ∧
      (Charset.ibm437.encode text).length = 6 ∧
      Charset.ibm437.decode (Charset.ibm437.encode text) = ['⌂', 'Ç', '?', '\x1b', '⌂', '?'] ∧
      Charset.ibm437.decode (Charset.ibm437.encode text) ≠ text.map Charset.ibm437.legible := by
  intro text
  have hcs : Charset.ibm437.isUnicode = false := rfl
  obtain ⟨hlength, hdecode, hiff⟩ := decode_encode_single hcs text
  refine ⟨hcs, hlength, hdecode.trans (by decide +kernel), fun hsame => ?_⟩
  exact hiff.mp hsame ⟨rfl, by decide⟩

/-- No byte of code page 437 reads as DEL, and it comes back as a house and not as a question mark.
-/
theorem decode_encode_ibm437_ne :
    ¬Charset.ibm437.Readable '\x7f' ∧
      Charset.ibm437.decode (Charset.ibm437.encode ['\x7f']) = ['⌂'] ∧
      Charset.ibm437.decode (Charset.ibm437.encode ['\x7f'])
        ≠ ['\x7f'].map Charset.ibm437.legible := by
  decide +kernel

end Charset

end Clipboard
