import Clipboard.Charset
import Clipboard.Proofs.Utf16

/-!
# Charsets there and back

A charset keeps a character if it reads it back from the bytes it writes for it (`Keeps`).
`decode_encode` says that a text of such characters is read back as a whole.

There are three kinds of charsets: UTF-8, those of one byte per character (`Single`) and those of
the UTF-16 family (`Wide`); `kinds` is how the proofs go through them. But for the byte order mark a
text is written character by character (`encode_eq`).

A Unicode charset keeps every character (`keeps_of_isUnicode`), and every charset those of ASCII
(`keeps_of_ascii`).
-/

namespace Clipboard.Charset

/-- The charset reads the character back. -/
def Keeps (cs : Charset) (c : Char) : Prop := cs.decode (cs.encode [c]) = [c]

instance (cs : Charset) (c : Char) : Decidable (cs.Keeps c) :=
  inferInstanceAs (Decidable (_ = _))

/-- The bytes of a character behind others. -/
def charBytes (cs : Charset) (c : Char) : Bytes :=
  (({ charset := cs, marked := true } : Encoder).encodeChar c).1

/-- What stands before a text. -/
def markOf (cs : Charset) (text : List Char) : Bytes :=
  if cs = .utf16 ∧ text ≠ [] then byteOrderMark else []

theorem encodeChar_of_marked {cs : Charset} {marked : Bool} (h : marked = true ∨ cs ≠ .utf16)
    (c : Char) :
    ({ charset := cs, marked } : Encoder).encodeChar c
      = (cs.charBytes c, { charset := cs, marked }) := by
  rcases h with rfl | h
  · cases cs <;> rfl
  · cases cs
    case utf16 => exact absurd rfl h
    all_goals rfl

/-- Behind the mark, if there is one, a text is written character by character. -/
theorem encodeText_of_marked {cs : Charset} {marked : Bool} (h : marked = true ∨ cs ≠ .utf16)
    (text : List Char) :
    (({ charset := cs, marked } : Encoder).encodeText text).1 = text.flatMap cs.charBytes := by
  induction text with
  | nil => rfl
  | cons c text ih =>
    rw [Encoder.encodeText, encodeChar_of_marked h]
    simp only [ih, List.flatMap_cons]

theorem encode_eq (cs : Charset) (text : List Char) :
    cs.encode text = cs.markOf text ++ text.flatMap cs.charBytes := by
  by_cases hcs : cs = .utf16
  · subst hcs
    cases text with
    | nil => rfl
    | cons c text =>
      have hrest := @encodeText_of_marked .utf16 true (Or.inl rfl) text
      rw [encode, Encoder.encodeText]
      simp only [encoder, Encoder.encodeChar, hrest]
      rfl
  · have hmark : cs.markOf text = [] := if_neg (fun h => hcs h.1)
    rw [encode, encoder, encodeText_of_marked (Or.inr hcs), hmark, List.nil_append]

/-- Where there is no mark a text is its characters. -/
theorem encode_of_ne_utf16 {cs : Charset} (h : cs ≠ .utf16) (text : List Char) :
    cs.encode text = text.flatMap cs.charBytes := by
  rw [encode_eq, markOf, if_neg (fun hm => h hm.1), List.nil_append]

/-! ## Kinds of charsets -/

/-- A charset of one byte per character. -/
structure Single (cs : Charset) (byte : Char → UInt8) (char : UInt8 → Char) : Prop where
  charBytes_eq : ∀ c, cs.charBytes c = [byte c]
  decode_eq : ∀ bytes, cs.decode bytes = bytes.map char
  char_zero : char 0 = '\x00'

/-- A charset of the UTF-16 family. -/
structure Wide (cs : Charset) (order : Utf16.Order) : Prop where
  charBytes_eq : ∀ c, cs.charBytes c = Utf16.charBytes order c
  decode_eq : ∀ bytes, cs ≠ .utf16 → cs.decode bytes = Utf16.decodeBytes order bytes
  order_eq : order = if cs = .utf16le then .little else .big

theorem single_of_not_isWide {cs : Charset} (hwide : cs.isWide = false) (hutf8 : cs ≠ .utf8) :
    ∃ byte char, cs.Single byte char := by
  cases cs
  case utf8 => exact absurd rfl hutf8
  case usAscii => exact ⟨_, _, fun _ => rfl, fun _ => rfl, by decide⟩
  case latin1 => exact ⟨_, _, fun _ => rfl, fun _ => rfl, by decide⟩
  case windows1252 => exact ⟨_, _, fun _ => rfl, fun _ => rfl, by decide⟩
  case ibm437 => exact ⟨_, _, fun _ => rfl, fun _ => rfl, by decide⟩
  all_goals cases hwide

theorem wide_of_isWide {cs : Charset} (hwide : cs.isWide = true) : ∃ order, cs.Wide order := by
  cases cs
  case utf16 => exact ⟨.big, fun _ => rfl, fun _ h => absurd rfl h, rfl⟩
  case utf16le => exact ⟨.little, fun _ => rfl, fun _ _ => rfl, rfl⟩
  case utf16be => exact ⟨.big, fun _ => rfl, fun _ _ => rfl, rfl⟩
  all_goals cases hwide

/-- The charsets of one kind each. -/
theorem kinds (cs : Charset) : cs = .utf8 ∨ (∃ byte char, cs.Single byte char) ∨
    (cs.isWide = true ∧ ∃ order, cs.Wide order) := by
  by_cases hutf8 : cs = .utf8
  · exact Or.inl hutf8
  · cases hwide : cs.isWide with
    | true => exact Or.inr (Or.inr ⟨rfl, wide_of_isWide hwide⟩)
    | false => exact Or.inr (Or.inl (single_of_not_isWide hwide hutf8))

/-- The bytes of a character are its units. -/
theorem Single.isWide_eq {cs : Charset} {byte : Char → UInt8} {char : UInt8 → Char}
    (h : cs.Single byte char) : cs.isWide = false := by
  have hlen : (cs.charBytes 'a').length = 1 := by rw [h.charBytes_eq]; rfl
  cases cs
  case utf16 | utf16le | utf16be => exact absurd hlen (by decide)
  all_goals rfl

theorem Single.ne_utf16 {cs : Charset} {byte : Char → UInt8} {char : UInt8 → Char}
    (h : cs.Single byte char) : cs ≠ .utf16 := by
  rintro rfl
  cases h.isWide_eq

theorem Single.ne_utf8 {cs : Charset} {byte : Char → UInt8} {char : UInt8 → Char}
    (h : cs.Single byte char) : cs ≠ .utf8 := by
  rintro rfl
  have hlen : (Charset.utf8.charBytes 'é').length = 1 := by rw [h.charBytes_eq]; rfl
  exact absurd hlen (by decide)

/-- What it means to be kept by a charset of one byte per character. -/
theorem Single.keeps_iff {cs : Charset} {byte : Char → UInt8} {char : UInt8 → Char}
    (h : cs.Single byte char) (c : Char) : cs.Keeps c ↔ char (byte c) = c := by
  simp [Keeps, encode_of_ne_utf16 h.ne_utf16, h.charBytes_eq, h.decode_eq]

/-! ## Reading what was written -/

theorem decode_utf16_mark (bytes : Bytes) :
    Charset.utf16.decode (byteOrderMark ++ bytes) = Utf16.decodeBytes .big bytes := rfl

theorem decode_encode_utf8 (text : List Char) :
    Charset.utf8.decode (Charset.utf8.encode text) = text := by
  rw [encode_eq]
  exact Utf8.decodeLossy_encode text

/-- The charsets of the UTF-16 family read back any text. -/
theorem Wide.decode_encode {cs : Charset} {order : Utf16.Order} (h : cs.Wide order)
    (text : List Char) : cs.decode (cs.encode text) = text := by
  have hbody : text.flatMap cs.charBytes = text.flatMap (Utf16.charBytes order) := by
    rw [funext h.charBytes_eq]
  have hdecode := Utf16.decodeBytes_flatMap_append order text []
  rw [List.append_nil, Utf16.decodeBytes_nil, List.append_nil] at hdecode
  by_cases hcs : cs = .utf16
  · subst hcs
    have horder : order = .big := h.order_eq
    subst horder
    cases text with
    | nil => rw [encode_eq]; simp [markOf, decode, splitMark]
    | cons c text => rw [encode_eq, hbody, markOf, if_pos (by simp), decode_utf16_mark, hdecode]
  · rw [encode_of_ne_utf16 hcs, hbody, h.decode_eq _ hcs, hdecode]

/-- **A text of characters that are kept is kept.** -/
theorem decode_encode {cs : Charset} {text : List Char} (h : ∀ c ∈ text, cs.Keeps c) :
    cs.decode (cs.encode text) = text := by
  rcases cs.kinds with rfl | ⟨byte, char, hsingle⟩ | ⟨-, order, hwide⟩
  · exact decode_encode_utf8 text
  · rw [encode_of_ne_utf16 hsingle.ne_utf16, hsingle.decode_eq, List.map_flatMap]
    induction text with
    | nil => rfl
    | cons c text ih =>
      have hc := (hsingle.keeps_iff c).mp (h c List.mem_cons_self)
      have ih := ih (fun x hx => h x (List.mem_cons_of_mem _ hx))
      rw [List.flatMap_cons, ih, hsingle.charBytes_eq]
      simp [hc]
  · exact hwide.decode_encode text

/-! ## Unicode and ASCII -/

/-- Whether all of Unicode can be written. -/
def isUnicode : Charset → Bool
  | .utf8 | .utf16 | .utf16le | .utf16be => true
  | .usAscii | .latin1 | .windows1252 | .ibm437 => false

theorem isUnicode_iff (cs : Charset) : cs.isUnicode = true ↔ cs = .utf8 ∨ cs.isWide = true := by
  cases cs <;> decide

/-- **A Unicode charset keeps every character.** -/
theorem keeps_of_isUnicode {cs : Charset} (h : cs.isUnicode = true) (c : Char) : cs.Keeps c := by
  rcases cs.isUnicode_iff.mp h with rfl | hwide
  · exact decode_encode_utf8 [c]
  · obtain ⟨order, horder⟩ := wide_of_isWide hwide
    exact horder.decode_encode [c]

/-- Every charset keeps the characters of ASCII. IBM437 reads a small house for DEL. -/
theorem keeps_of_ascii (cs : Charset) {c : Char} (h : c.toNat < 0x7F) : cs.Keeps c := by
  cases hunicode : cs.isUnicode with
  | true => exact keeps_of_isUnicode hunicode c
  | false =>
    have hall : ∀ n < 0x7F, cs.Keeps (Char.ofNat n) := by
      cases cs
      case usAscii | latin1 | windows1252 | ibm437 => decide +kernel
      all_goals cases hunicode
    have hc := hall c.toNat h
    rwa [Char.ofNat_toNat] at hc

/-! ## The byte order mark -/

theorem splitMark_singleton (b : UInt8) : splitMark [b] = (.big, [b]) := by
  unfold splitMark
  split
  · next heq => cases heq
  · next heq => cases heq
  · rfl

theorem splitMark_cons_cons (a b : UInt8) (rest : Bytes) :
    splitMark (a :: b :: rest) =
      if Utf16.unit .big a b = 0xFEFF then (.big, rest)
      else if Utf16.unit .big a b = 0xFFFE then (.little, rest)
      else (.big, a :: b :: rest) := by
  have ha := a.toNat_lt
  have hb := b.toNat_lt
  have hmark : ∀ high low : UInt8,
      Utf16.unit .big a b = high.toNat * 0x100 + low.toNat ↔ a = high ∧ b = low := by
    intro high low
    have hlow := low.toNat_lt
    rw [← UInt8.toNat_inj, ← UInt8.toNat_inj, Utf16.unit]
    omega
  rw [show (0xFEFF : Nat) = (0xFE : UInt8).toNat * 0x100 + (0xFF : UInt8).toNat from rfl,
    show (0xFFFE : Nat) = (0xFF : UInt8).toNat * 0x100 + (0xFE : UInt8).toNat from rfl]
  simp only [hmark]
  unfold splitMark
  split
  · next heq =>
    obtain ⟨rfl, rfl, rfl⟩ : a = 0xFE ∧ b = 0xFF ∧ rest = _ := by simpa using heq
    rfl
  · next heq =>
    obtain ⟨rfl, rfl, rfl⟩ : a = 0xFF ∧ b = 0xFE ∧ rest = _ := by simpa using heq
    rfl
  · next hbig hlittle =>
    rw [if_neg (by rintro ⟨rfl, rfl⟩; exact hbig rest rfl),
      if_neg (by rintro ⟨rfl, rfl⟩; exact hlittle rest rfl)]

end Clipboard.Charset
