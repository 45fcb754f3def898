import Clipboard.Text.Hex
import Clipboard.Toml.Scan

/-!
# TOML strings

A string stands between double quotes, where a backslash begins an escape, or between single quotes,
where every character is itself. Between three quotes it may have several lines; a line break right
at the beginning does not count, and one or two quotes may stand anywhere, even before the last
three.
-/

namespace Clipboard.Toml.Text

def hexValue? (cs : List Char) : Option Nat :=
  cs.foldlM (fun n c => (Hex.value? c).map (16 * n + ·)) 0

/-- The character with a code point of so many hexadecimal digits. -/
def codePoint (digits : Nat) : Scan Char := fun cs =>
  if cs.length < digits then none
  else do
    let n ← hexValue? (cs.take digits)
    if n.isValidChar then some (Char.ofNat n, cs.drop digits) else none

/-- An escape, behind its backslash. -/
def escape : Scan Char
  | 'b' :: rest => some ('\x08', rest)
  | 't' :: rest => some ('\t', rest)
  | 'n' :: rest => some ('\n', rest)
  | 'f' :: rest => some ('\x0c', rest)
  | 'r' :: rest => some ('\r', rest)
  | '\x22' :: rest => some ('\x22', rest)
  | '\\' :: rest => some ('\\', rest)
  | 'u' :: rest => codePoint 4 rest
  | 'U' :: rest => codePoint 8 rest
  | _ => none

/-- A character between double quotes. -/
def basicChar : Scan Char
  | '\\' :: rest => escape rest
  | cs => Scan.satisfying (fun c => isPrintable c && c ≠ '\x22') cs

/-- A character between single quotes. -/
def literalChar : Scan Char := Scan.satisfying (fun c => isPrintable c && c ≠ '\'')

/-- The rest of a string of one line. -/
def oneLine (quote : Char) (piece : Scan Char) : Scan String := fun cs => do
  let (text, rest) := Scan.many piece cs
  let ((), rest) ← Scan.char quote rest
  return (String.ofList text, rest)

/-- A backslash at the end of a line; it takes away all blanks and line breaks behind it. -/
def continuation : Scan (List Char)
  | '\\' :: rest => do
    let ((), rest) ← lineBreak (skipBlanks rest)
    return ([], (Scan.many (fun cs => lineBreak (skipBlanks cs)) rest).2.dropWhile isBlank)
  | _ => none

/-- One or two quotes that do not end the string. -/
def innerQuotes (quote : Char) : Scan (List Char) := fun cs =>
  let (quotes, rest) := cs.span (· = quote)
  if 1 ≤ quotes.length && quotes.length ≤ 2 && !rest.isEmpty then some (quotes, rest) else none

/-- The quotes at the end: those that belong to the string, and three more. -/
def closingQuotes (quote : Char) : Scan (List Char) := fun cs =>
  let (quotes, rest) := cs.span (· = quote)
  if 3 ≤ quotes.length && quotes.length ≤ 5 then some (quotes.drop 3, rest) else none

/-- A piece of a string of several lines. -/
def piece (quote : Char) (char : Scan Char) : Scan (List Char) := fun cs =>
  match lineBreak cs with
  | some ((), rest) => some (['\n'], rest)
  | none => (innerQuotes quote cs).or ((char cs).map (fun (c, rest) => ([c], rest)))

/-- The rest of a string of several lines. -/
def multiLine (quote : Char) (piece : Scan (List Char)) : Scan String := fun cs => do
  let start := match lineBreak cs with
    | some ((), rest) => rest
    | none => cs
  let (pieces, rest) := Scan.many piece start
  let (last, rest) ← closingQuotes quote rest
  return (String.ofList (pieces.flatten ++ last), rest)

def short : Scan String
  | '\x22' :: rest => oneLine '\x22' basicChar rest
  | '\'' :: rest => oneLine '\'' literalChar rest
  | _ => none

def string : Scan String
  | '\x22' :: '\x22' :: '\x22' :: rest =>
    multiLine '\x22' (Scan.or continuation (piece '\x22' basicChar)) rest
  | '\'' :: '\'' :: '\'' :: rest => multiLine '\'' (piece '\'' literalChar) rest
  | cs => short cs

end Clipboard.Toml.Text
