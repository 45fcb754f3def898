import Clipboard.Charset
import Clipboard.Utf8

/-!
# Lists of file URIs

The URI of a file is `file://` and its path, with a slash for every backslash and one in front.
Bytes that are no plain ASCII are written as a percent sign and two digits, and so are blanks,
control characters and the characters that mean something in a URI.

Read are URIs without a host, or with the host `localhost`; others name no local file. In a list the
URIs stand on lines of their own; a line that begins with a number sign is a comment.
-/

namespace Clipboard.UriList

/-! ## Percent signs -/

/-- Whether a byte is written as it is in a path. -/
def isPlain (b : UInt8) : Bool :=
  0x20 < b.toNat && b.toNat < 0x7F
    && !("\x22#%<>?[]\\^`\x7b|\x7d".toList.map Char.toNat).contains b.toNat

/-- A byte as it stands in a URI. -/
def escape (b : UInt8) : List Char :=
  if isPlain b then [Char.ofNat b.toNat]
  else ['%', Hex.upperDigit (b.toNat / 16), Hex.upperDigit (b.toNat % 16)]

/-- The byte of two digits behind a percent sign. -/
def escaped? (a b : UInt8) : Option UInt8 := do
  let high ← Hex.value? (Char.ofNat a.toNat)
  let low ← Hex.value? (Char.ofNat b.toNat)
  return UInt8.ofNat (16 * high + low)

/-- A percent sign and two digits become a byte; a percent sign alone is kept. -/
def unescape : Bytes → Bytes
  | 0x25 :: a :: b :: rest =>
    match escaped? a b with
    | some byte => byte :: unescape rest
    | none => 0x25 :: unescape (a :: b :: rest)
  | b :: rest => b :: unescape rest
  | [] => []

/-! ## URIs -/

/-- A path with slashes only, one of them in front. -/
def normalize (path : List Char) : List Char :=
  let path := path.map (fun c => if c = '\\' then '/' else c)
  if path.head? = some '/' then path else '/' :: path

def scheme : List Char := "file:".toList

def ofPath (path : List Char) : List Char :=
  scheme ++ ['/', '/'] ++ (Utf8.encode (normalize path)).flatMap escape

/-- The path behind a host that is this one. -/
def afterHost? (rest : List Char) : Option (List Char) :=
  let host := rest.takeWhile (· ≠ '/')
  let path := rest.dropWhile (· ≠ '/')
  if path.isEmpty then none
  else if host.isEmpty || Text.sameLetters host "localhost".toList then some path
  else none

/-- The path of a URI, if that names a local file. -/
def toPath? (uri : List Char) : Option (List Char) := do
  let rest ← Text.after? scheme uri
  let path ←
    match Text.after? ['/', '/'] rest with
    | some behind => afterHost? behind
    | none => some rest
  if path.head? = some '/' then Utf8.decode? (unescape (Utf8.encode path)) else none

/-! ## Lists -/

/-- The bytes of a list, every URI on a line. -/
def encode (charset : Charset) (paths : List (List Char)) : Bytes :=
  paths.flatMap (fun path => charset.encode (ofPath path) ++ charset.encode ['\r', '\n'])

def isEntry (line : List Char) : Bool := !line.isEmpty && line.head? ≠ some '#'

/-- The paths in the text of a list. -/
def parse (text : List Char) : List (List Char) :=
  (((Text.lines text).map Text.trim).filter isEntry).filterMap toPath?

end Clipboard.UriList
