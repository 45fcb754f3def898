import Clipboard.Text.Hex

/-!
# Code pages

Character sets of one byte per character. A byte reads as one character; a character that no byte
reads as is written as a question mark. U+FFFD stands for the bytes that read as nothing, and so
has no byte of its own.

The two tables give the characters of the bytes from 0x80 on that are not those of Latin-1.
-/

namespace Clipboard.CodePage

/-- The byte written for a character that has none. -/
def questionMark : UInt8 := 0x3F

/-- The character with the code point of the byte. -/
def sameCodePoint (b : UInt8) : Char := Char.ofNat b.toNat

/-! ## US-ASCII and Latin-1 -/

/-- US-ASCII: bytes from 0x80 on read as nothing. -/
def asciiChar (b : UInt8) : Char := if b.toNat < 0x80 then sameCodePoint b else '\ufffd'

def asciiByte (c : Char) : UInt8 := if c.toNat < 0x80 then UInt8.ofNat c.toNat else questionMark

/-- Latin-1: every byte is its code point. -/
def latin1Char (b : UInt8) : Char := sameCodePoint b

def latin1Byte (c : Char) : UInt8 := if c.toNat ≤ 0xFF then UInt8.ofNat c.toNat else questionMark

/-! ## Windows-1252 -/

/-- The characters of the bytes 0x80 to 0x9F. -/
def windows1252High : List Char :=
  [
    '€', '\ufffd', '‚', 'ƒ', '„', '…', '†', '‡',
    'ˆ', '‰', 'Š', '‹', 'Œ', '\ufffd', 'Ž', '\ufffd',
    '\ufffd', '\u2018', '\u2019', '\u201c', '\u201d', '•', '–', '—',
    '˜', '™', 'š', '›', 'œ', '\ufffd', 'ž', 'Ÿ']

/-- Windows-1252: Latin-1 but for the bytes 0x80 to 0x9F. -/
def windows1252Char (b : UInt8) : Char :=
  if 0x80 ≤ b.toNat && b.toNat ≤ 0x9F then windows1252High.getD (b.toNat - 0x80) '\ufffd'
  else sameCodePoint b

def windows1252Byte (c : Char) : UInt8 :=
  let n := c.toNat
  if n ≤ 0x7F || (0xA0 ≤ n && n ≤ 0xFF) then UInt8.ofNat n
  else if c = '\ufffd' then questionMark
  else
    match windows1252High.idxOf? c with
    | some i => UInt8.ofNat (0x80 + i)
    | none => questionMark

/-! ## Code page 437 -/

/-- The characters of the bytes from 0x80 on. -/
def cp437High : List Char :=
  [
    'Ç', 'ü', 'é', 'â', 'ä', 'à', 'å', 'ç', 'ê', 'ë', 'è', 'ï', 'î', 'ì', 'Ä', 'Å',
    'É', 'æ', 'Æ', 'ô', 'ö', 'ò', 'û', 'ù', 'ÿ', 'Ö', 'Ü', '¢', '£', '¥', '₧', 'ƒ',
    'á', 'í', 'ó', 'ú', 'ñ', 'Ñ', 'ª', 'º', '¿', '⌐', '¬', '½', '¼', '¡', '«', '»',
    '░', '▒', '▓', '│', '┤', '╡', '╢', '╖', '╕', '╣', '║', '╗', '╝', '╜', '╛', '┐',
    '└', '┴', '┬', '├', '─', '┼', '╞', '╟', '╚', '╔', '╩', '╦', '╠', '═', '╬', '╧',
    '╨', '╤', '╥', '╙', '╘', '╒', '╓', '╫', '╪', '┘', '┌', '█', '▄', '▌', '▐', '▀',
    'α', 'ß', 'Γ', 'π', 'Σ', 'σ', 'µ', 'τ', 'Φ', 'Θ', 'Ω', 'δ', '∞', 'φ', 'ε', '∩',
    '≡', '±', '≥', '≤', '⌠', '⌡', '÷', '≈', '°', '∙', '·', '√', 'ⁿ', '²', '■', '\u00a0']

/-- Code page 437: US-ASCII up to 0x7E, then a house and the table. -/
def cp437Char (b : UInt8) : Char :=
  if b.toNat < 0x7F then sameCodePoint b
  else if b.toNat = 0x7F then '⌂'
  else cp437High.getD (b.toNat - 0x80) '\ufffd'

/-- The code page 437 byte of a character; both DEL and the house are 0x7F. -/
def cp437Byte (c : Char) : UInt8 :=
  if c.toNat < 0x80 then UInt8.ofNat c.toNat
  else if c = '⌂' then 0x7F
  else
    match cp437High.idxOf? c with
    | some i => UInt8.ofNat (0x80 + i)
    | none => questionMark

end Clipboard.CodePage
