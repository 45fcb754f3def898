/-!
# White space

The characters with the Unicode property `White_Space`, and the ways a text is cut at them.

* `trim` drops the white space at both ends.
* `words` are the maximal runs without white space.
* `lines` are the pieces between line feeds; a carriage return just before a line feed belongs
  to the line end, and a line feed at the very end starts no further line.

Both cuts go through `pieces`, which keeps every piece, empty ones included.
-/

namespace Clipboard.Text

/-- The property `White_Space`. -/
def isBlank (c : Char) : Bool :=
  let n := c.toNat
  (9 ≤ n && n ≤ 13) || n == 0x20 || n == 0x85 || n == 0xA0 || n == 0x1680
    || (0x2000 ≤ n && n ≤ 0x200A) || n == 0x2028 || n == 0x2029 || n == 0x202F || n == 0x205F
    || n == 0x3000

/-- White space at the left end dropped. -/
def trimLeft (cs : List Char) : List Char := cs.dropWhile isBlank

/-- White space at the right end dropped. -/
def trimRight (cs : List Char) : List Char := (cs.reverse.dropWhile isBlank).reverse

def trim (cs : List Char) : List Char := trimRight (trimLeft cs)

/-! ## Cutting -/

/-- The pieces between the characters that satisfy `p`; there is one more piece than such
characters. -/
def pieces (p : Char → Bool) : List Char → List (List Char)
  | [] => [[]]
  | c :: cs =>
    if p c then [] :: pieces p cs
    else
      match pieces p cs with
      | [] => [[c]]
      | s :: ss => (c :: s) :: ss

theorem pieces_ne_nil (p : Char → Bool) (cs : List Char) : pieces p cs ≠ [] := by
  cases cs with
  | nil => simp [pieces]
  | cons c cs =>
    rw [pieces]
    split
    · simp
    · split <;> simp

/-- The maximal runs without white space. -/
def words (cs : List Char) : List (List Char) :=
  (pieces isBlank cs).filter (fun w => !w.isEmpty)

/-- A carriage return at the end is part of the line end. -/
def dropReturn (line : List Char) : List Char :=
  match line.getLast? with
  | some '\r' => line.dropLast
  | _ => line

/-- The pieces before the last end with a line feed, the last one with the text. -/
def linesOf : List (List Char) → List (List Char)
  | [] => []
  | [last] => if last.isEmpty then [] else [last]
  | line :: rest => dropReturn line :: linesOf rest

/-- The lines of a text, without their ends. -/
def lines (cs : List Char) : List (List Char) := linesOf (pieces (· == '\n') cs)

/-- The parts around the first `sep`, if there is one. -/
def splitAtFirst (sep : Char) (cs : List Char) : Option (List Char × List Char) :=
  match cs.dropWhile (· != sep) with
  | [] => none
  | _ :: after => some (cs.takeWhile (· != sep), after)

/-- The part before the first `sep`; the whole text if there is none. -/
def before (sep : Char) (cs : List Char) : List Char := cs.takeWhile (· != sep)

/-! ## Letter case

Only the ASCII letters have a case here; core's `Char.toLower` and `Char.toUpper` are just that.
-/

def lower (cs : List Char) : List Char := cs.map Char.toLower

def upper (cs : List Char) : List Char := cs.map Char.toUpper

/-- Equality up to the case of ASCII letters. -/
def sameLetters (a b : List Char) : Bool := lower a == lower b

/-- The text after `start`, if the text begins with it. -/
def after? : (start text : List Char) → Option (List Char)
  | [], text => some text
  | _ :: _, [] => none
  | s :: start, c :: text => if s = c then after? start text else none

theorem after?_eq_some_iff {start text rest : List Char} :
    after? start text = some rest ↔ text = start ++ rest := by
  induction start generalizing text with
  | nil => simp [after?]
  | cons s start ih =>
    cases text with
    | nil => simp [after?]
    | cons c text =>
      by_cases h : s = c
      · simp [after?, h, ih]
      · simp [after?, h, Ne.symm h]

def contains (part : List Char) : List Char → Bool
  | [] => part.isEmpty
  | c :: cs => part.isPrefixOf (c :: cs) || contains part cs

end Clipboard.Text
