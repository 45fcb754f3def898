import Clipboard.Binary64
import Clipboard.Text.Hex
import Clipboard.Text.Number
import Clipboard.Toml
import Clipboard.Toml.Scan

/-!
# TOML numbers, truth values and moments

Single underscores may stand between the digits of a number. A decimal number has no leading zeros;
integers fit 64 bits with a sign, and may be hexadecimal, octal or binary, without a sign. The time
of a moment may stand behind a space.
-/

namespace Clipboard.Toml.Scalar

/-- The digits of a numeral without its underscores. -/
def digits? (value? : Char → Option Nat) : List Char → Option (List Nat)
  | [] => none
  | [c] => (value? c).map ([·])
  | c :: '_' :: cs => do return (← value? c) :: (← digits? value? cs)
  | c :: cs => do return (← value? c) :: (← digits? value? cs)

/-- The number that digits of a base spell. -/
def valueOf (base : Nat) (ds : List Nat) : Nat := ds.foldl (fun n d => base * n + d) 0

/-- The value of a digit in a base up to sixteen. -/
def digitIn (base : Nat) (c : Char) : Option Nat := (Hex.value? c).filter (· < base)

def decimals? (cs : List Char) : Option (List Nat) := digits? (digitIn 10) cs

/-- The digits of a whole number: no zero is in front of another digit. -/
def whole? (cs : List Char) : Option (List Nat) :=
  match decimals? cs with
  | some (0 :: _ :: _) => none
  | ds => ds

/-- The sign of a numeral, and the numeral without it. -/
def signed : List Char → Bool × List Char
  | '-' :: cs => (true, cs)
  | '+' :: cs => (false, cs)
  | cs => (false, cs)

def integer? (cs : List Char) : Option Int :=
  let inBase (base : Nat) (ds : List Char) : Option Int :=
    (digits? (digitIn base) ds).map (fun ds => (valueOf base ds : Int))
  let n := match cs with
    | '0' :: 'x' :: ds => inBase 16 ds
    | '0' :: 'o' :: ds => inBase 8 ds
    | '0' :: 'b' :: ds => inBase 2 ds
    | cs =>
      let (negative, ds) := signed cs
      (whole? ds).map (fun ds => if negative then -(valueOf 10 ds : Int) else valueOf 10 ds)
  n.filter (fun n => -(Int.pow 2 63) ≤ n && n < Int.pow 2 63)

/-! ## Floating-point numbers -/

/-- Whether the digits, times a power of ten, are a finite number. Numbers far out of the range are
told by their length alone. -/
def isFinite (ds : List Nat) (e : Int) : Bool :=
  let n := valueOf 10 ds
  let length : Int := (ds.dropWhile (· = 0)).length + e
  if n = 0 ∨ length < 0 then true
  else if length > 400 then false
  else if 0 ≤ e then (Binary64.round? false (n * Nat.pow 10 e.toNat) 1).isSome
  else (Binary64.round? false n (Nat.pow 10 (-e).toNat)).isSome

def exponent? (cs : List Char) : Option Int :=
  let (negative, ds) := signed cs
  (decimals? ds).map (fun ds => if negative then -(valueOf 10 ds : Int) else valueOf 10 ds)

/-- Whether a text is a floating-point number. One that is too large is none, but for a negative
one that is no matter. -/
def isFloat (cs : List Char) : Bool :=
  let (negative, cs) := signed cs
  if cs = "inf".toList ∨ cs = "nan".toList then true
  else
    let isMark (c : Char) : Bool := c = 'e' || c = 'E'
    let (mantissa, power) := cs.span (!isMark ·)
    let (front, back) := mantissa.span (· ≠ '.')
    let checked := do
      let front ← whole? front
      let back ← if back.isEmpty then some [] else decimals? (back.drop 1)
      let e ← if power.isEmpty then some 0 else exponent? (power.drop 1)
      return (front, back, e)
    match checked with
    | none => false
    | some (front, places, e) =>
      (!back.isEmpty || !power.isEmpty)
        && (negative || isFinite (front ++ places) (e - places.length))

/-! ## Values -/

/-- The value of a text without blanks. -/
def ofText? (cs : List Char) : Option Value :=
  if cs = "true".toList then some (.boolean true)
  else if cs = "false".toList then some (.boolean false)
  else
    match Moment.ofText? cs with
    | some m => some (.moment m)
    | none =>
      if isFloat cs then some (.float (String.ofList cs))
      else (integer? cs).map .integer

/-- What the texts of these values are made of. -/
def isPart (c : Char) : Bool :=
  c.isAlphanum || c = '_' || c = '+' || c = '-' || c = '.' || c = ':'

/-- A moment whose date and time have a space between them. -/
def spaced : Scan Moment := fun cs =>
  match Date.scan cs with
  | some (d, ' ' :: rest) =>
    let (time, rest) := rest.span isPart
    (Moment.withTime? d time).map (·, rest)
  | _ => none

/-- A value of no parts that is not a string. -/
def scan : Scan Value := fun cs =>
  match spaced cs with
  | some (m, rest) => some (.moment m, rest)
  | none =>
    let (text, rest) := cs.span isPart
    (ofText? text).map (·, rest)

end Clipboard.Toml.Scalar
