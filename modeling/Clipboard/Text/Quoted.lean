import Clipboard.Text.Plain

/-!
# Quoted text

A quoted text stands between double quotes. The quote, the backslash, NUL, tab, line feed and
carriage return are written with a backslash; any other character that does not stand for itself
is written as its code point in hexadecimal, `\u` and braces around it.
-/

namespace Clipboard.Text

/-- The code point in lower-case hexadecimal, without leading zeros. -/
def codePointDigits (c : Char) : List Char := Nat.toDigits 16 c.toNat

/-- A character as it stands inside quotes. -/
def escape (c : Char) : List Char :=
  match c with
  | '\x00' => ['\\', '0']
  | '\t' => ['\\', 't']
  | '\n' => ['\\', 'n']
  | '\r' => ['\\', 'r']
  | '\x22' => ['\\', '\x22']
  | '\\' => ['\\', '\\']
  | c => if isPlain c then [c] else ['\\', 'u', '\x7b'] ++ codePointDigits c ++ ['\x7d']

def quote (cs : List Char) : List Char := '\x22' :: cs.flatMap escape ++ ['\x22']

def quoted (s : String) : String := .ofList (quote s.toList)

end Clipboard.Text
