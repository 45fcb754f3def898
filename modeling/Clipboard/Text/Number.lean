/-!
# Whole numbers in text

`natural?` reads a run of decimal digits, `integer?` also takes a sign. `word?` and `signedWord?`
keep the numbers that fit 64 bits, unsigned and signed.
-/

namespace Clipboard.Text

def digit? (c : Char) : Option Nat :=
  if c.isDigit then some (c.toNat - 0x30) else none

/-- The number that `n` followed by the digits spells; nothing else may follow. -/
def digitsFrom (n : Nat) : List Char → Option Nat
  | [] => some n
  | c :: cs => (digit? c).bind (fun d => digitsFrom (10 * n + d) cs)

/-- The number a non-empty run of digits spells. -/
def natural? : List Char → Option Nat
  | [] => none
  | cs => digitsFrom 0 cs

/-- The number that digits behind an optional sign spell. -/
def integer? : List Char → Option Int
  | '+' :: cs => (natural? cs).map Int.ofNat
  | '-' :: cs => (natural? cs).map (fun n => -(n : Int))
  | cs => (natural? cs).map Int.ofNat

/-- A number below `2 ^ 64`; a plus sign is allowed. -/
def word? (cs : List Char) : Option Nat :=
  let n := match cs with
    | '+' :: cs => natural? cs
    | cs => natural? cs
  n.filter (· < Nat.pow 2 64)

/-- A number from `-2 ^ 63` to `2 ^ 63 - 1`. -/
def signedWord? (cs : List Char) : Option Int :=
  (integer? cs).filter (fun i => -(Int.pow 2 63) ≤ i && i < Int.pow 2 63)

end Clipboard.Text
