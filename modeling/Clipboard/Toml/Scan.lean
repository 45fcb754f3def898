/-!
# Cutting up a TOML text

A scan takes something off the beginning of a text, or fails. Lines are ended by a line feed, with
or without a carriage return before it; between the parts of a line there may be spaces and tabs,
and a comment may stand at its end. In an array all of these may stand between the parts.
-/

namespace Clipboard.Toml

/-- Takes a value off a text; what is left comes with it. -/
abbrev Scan (α : Type) := List Char → Option (α × List Char)

namespace Scan

variable {α : Type}

/-- Scans up to a number of times, as often as possible. -/
def atMost (p : Scan α) : (times : Nat) → List Char → List α × List Char
  | 0, cs => ([], cs)
  | times + 1, cs =>
    match p cs with
    | none => ([], cs)
    | some (a, rest) =>
      let (as, last) := atMost p times rest
      (a :: as, last)

/-- Scans as often as possible. A scan that takes something cannot do so more often than there are
characters. -/
def many (p : Scan α) (cs : List Char) : List α × List Char := atMost p cs.length cs

def char (expected : Char) : Scan Unit
  | c :: rest => if c = expected then some ((), rest) else none
  | [] => none

def satisfying (p : Char → Bool) : Scan Char
  | c :: rest => if p c then some (c, rest) else none
  | [] => none

/-- The longest run of characters of a class. -/
def run (p : Char → Bool) : Scan (List Char) := fun cs => some (cs.span p)

/-- The first scan, or if it fails the second. -/
def or (p q : Scan α) : Scan α := fun cs => (p cs).or (q cs)

end Scan

def isBlank (c : Char) : Bool := c = ' ' || c = '\t'

/-- What may stand in a comment: all but control characters, and the tab. -/
def isPrintable (c : Char) : Bool := c = '\t' || (0x20 ≤ c.toNat && c.toNat ≠ 0x7F)

def skipBlanks (cs : List Char) : List Char := cs.dropWhile isBlank

def skipComment : List Char → List Char
  | '#' :: rest => rest.dropWhile isPrintable
  | cs => cs

def lineBreak : Scan Unit
  | '\n' :: rest => some ((), rest)
  | '\r' :: '\n' :: rest => some ((), rest)
  | _ => none

/-- The end of a line or of the text, a comment before it. -/
def lineEnd : Scan Unit := fun cs =>
  match skipComment (skipBlanks cs) with
  | [] => some ((), [])
  | rest => lineBreak rest

/-- The text behind blanks, comments and line breaks. -/
def skipFiller (cs : List Char) : List Char :=
  let line : Scan Unit := fun cs => lineBreak (skipComment (skipBlanks cs))
  skipBlanks (Scan.many line cs).2

end Clipboard.Toml
