import Clipboard.CodePage
import Clipboard.Text.Blank
import Clipboard.Utf8
import Clipboard.Utf16

/-!
# Charsets

The charsets that native text comes in, their names, and encoding and decoding whole texts.

A name is looked up without regard to white space around it and to letter case; `canonicalName`
leaves a name that is not known as it is. Encoding writes a question mark for a character that the
charset lacks, decoding reads U+FFFD for bytes that are no character.

Only UTF-16 has a state: its byte order mark goes before the first character that is written, and
nothing is written for an empty text.
-/

namespace Clipboard

/-- A charset that texts can be written in and read from. -/
inductive Charset where
  | utf8
  /-- UTF-16 behind a byte order mark; the high byte comes first where there is none. -/
  | utf16
  | utf16le
  | utf16be
  | usAscii
  | latin1
  | windows1252
  | ibm437
  deriving DecidableEq, Repr

namespace Charset

/-- The charset used where nothing names one. -/
def defaultName : String := "UTF-8"

/-- The charset a lower-case label stands for. -/
def ofLabel? (label : String) : Option Charset :=
  match label with
  | "utf-8" | "utf8" | "unicode-1-1-utf-8" => some .utf8
  | "utf-16" | "utf16" | "utf_16" | "unicode" | "unicodebig" => some .utf16
  | "utf-16le" | "utf_16le" | "x-utf-16le" | "unicodelittleunmarked" => some .utf16le
  | "utf-16be" | "utf_16be" | "x-utf-16be" | "unicodebigunmarked" => some .utf16be
  | "us-ascii" | "ascii" | "us" | "iso646-us" | "ansi_x3.4-1968" | "646" | "cp367" =>
    some .usAscii
  | "iso-8859-1" | "iso8859-1" | "iso8859_1" | "iso_8859-1" | "8859_1" | "latin1" | "l1"
  | "cp819" => some .latin1
  | "windows-1252" | "cp1252" => some .windows1252
  | "ibm437" | "ibm-437" | "cp437" | "437" => some .ibm437
  | _ => none

def ofName? (name : String) : Option Charset :=
  ofLabel? (String.ofList (Text.lower (Text.trim name.toList)))

def name : Charset → String
  | .utf8 => "UTF-8"
  | .utf16 => "UTF-16"
  | .utf16le => "UTF-16LE"
  | .utf16be => "UTF-16BE"
  | .usAscii => "US-ASCII"
  | .latin1 => "ISO-8859-1"
  | .windows1252 => "windows-1252"
  | .ibm437 => "IBM437"

/-- The canonical name is itself a name of the charset. -/
theorem ofName?_name (cs : Charset) : ofName? cs.name = some cs := by
  cases cs <;> decide +kernel

/-- The canonical name if the charset is known, the name itself otherwise. -/
def canonicalName (name : String) : String :=
  match ofName? name with
  | some cs => cs.name
  | none => name

theorem canonicalName_of_ofName? {name : String} {cs : Charset} (h : ofName? name = some cs) :
    canonicalName name = cs.name := by
  simp [canonicalName, h]

/-- A canonical name is its own canonical name. -/
theorem canonicalName_canonicalName (name : String) :
    canonicalName (canonicalName name) = canonicalName name := by
  cases h : ofName? name with
  | none => simp [canonicalName, h]
  | some cs => rw [canonicalName_of_ofName? h, canonicalName_of_ofName? (ofName?_name cs)]

/-- Whether the name is that of a charset. -/
def isSupported (name : String) : Bool := (ofName? name).isSome

/-- The most bytes that one character takes; for UTF-16 the byte order mark is counted. -/
def maxBytesPerChar : Charset → Nat
  | .utf8 => 4
  | .utf16 => 6
  | .utf16le | .utf16be => 4
  | .usAscii | .latin1 | .windows1252 | .ibm437 => 1

/-- Whether characters are written in units of two bytes. -/
def isWide : Charset → Bool
  | .utf16 | .utf16le | .utf16be => true
  | _ => false

/-- The number of bytes of a code unit. -/
def unitWidth (cs : Charset) : Nat := if cs.isWide then 2 else 1

theorem unitWidth_pos (cs : Charset) : 0 < cs.unitWidth := by
  unfold unitWidth
  split <;> omega

/-! ## Writing -/

/-- Writes one character after the other. -/
structure Encoder where
  charset : Charset
  /-- Whether the byte order mark has been written. -/
  marked : Bool
  deriving DecidableEq, Repr

def encoder (cs : Charset) : Encoder := { charset := cs, marked := false }

/-- The byte order mark, high byte first. -/
def byteOrderMark : Bytes := [0xFE, 0xFF]

namespace Encoder

/-- The bytes of a character, and the encoder after it. -/
def encodeChar (e : Encoder) (c : Char) : Bytes × Encoder :=
  match e.charset with
  | .utf8 => (Utf8.encodeChar c, e)
  | .utf16 =>
    -- with the first character, so that an empty text has no mark
    ((if e.marked then [] else byteOrderMark) ++ Utf16.charBytes .big c,
      { e with marked := true })
  | .utf16le => (Utf16.charBytes .little c, e)
  | .utf16be => (Utf16.charBytes .big c, e)
  | .usAscii => ([CodePage.asciiByte c], e)
  | .latin1 => ([CodePage.latin1Byte c], e)
  | .windows1252 => ([CodePage.windows1252Byte c], e)
  | .ibm437 => ([CodePage.cp437Byte c], e)

/-- Every character is written in at least one byte. -/
theorem encodeChar_ne_nil (e : Encoder) (c : Char) : (e.encodeChar c).1 ≠ [] := by
  unfold encodeChar
  split <;> simp [Utf8.encodeChar_ne_nil, Utf16.charBytes_ne_nil]

/-- The bytes of a text, and the encoder after it. -/
def encodeText (e : Encoder) : List Char → Bytes × Encoder
  | [] => ([], e)
  | c :: cs =>
    let first := e.encodeChar c
    let rest := first.2.encodeText cs
    (first.1 ++ rest.1, rest.2)

end Encoder

def encode (cs : Charset) (text : List Char) : Bytes := (cs.encoder.encodeText text).1

/-! ## Reading -/

/-- The byte order that the bytes of a UTF-16 text begin by naming, and the bytes after the mark. -/
def splitMark : Bytes → Utf16.Order × Bytes
  | 0xFE :: 0xFF :: rest => (.big, rest)
  | 0xFF :: 0xFE :: rest => (.little, rest)
  | bytes => (.big, bytes)

def decode (cs : Charset) (bytes : Bytes) : List Char :=
  match cs with
  | .utf8 => Utf8.decodeLossy bytes
  | .utf16 => Utf16.decodeBytes (splitMark bytes).1 (splitMark bytes).2
  | .utf16le => Utf16.decodeBytes .little bytes
  | .utf16be => Utf16.decodeBytes .big bytes
  | .usAscii => bytes.map CodePage.asciiChar
  | .latin1 => bytes.map CodePage.latin1Char
  | .windows1252 => bytes.map CodePage.windows1252Char
  | .ibm437 => bytes.map CodePage.cp437Char

end Charset

end Clipboard
