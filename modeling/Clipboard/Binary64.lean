/-!
# Binary floating-point numbers of 64 bits

A finite number is a sign, a mantissa below `2 ^ 53` and an exponent of two. Arithmetic is exact on
natural numbers and rounds once, to the nearest number, a tie going to the even mantissa
(`round?`); a result that is too large has no number.

`shortest` finds the fewest decimal digits that no other number is nearer to. The digits of a
number lie on the grid of some power of ten, next to the number; the coarsest grid on which one of
the two neighbours still reads back as the number gives them.
-/

namespace Clipboard

/-- A finite number: the mantissa times a power of two. -/
structure Binary64 where
  negative : Bool
  /-- The mantissa, below `2 ^ 53`. -/
  mantissa : Nat
  /-- The exponent, from -1074 to 971. -/
  exponent : Int
  deriving DecidableEq, Repr

namespace Binary64

def minExponent : Int := -1074

def maxExponent : Int := 971

/-- A fraction divided by a power of two. -/
def scale (num den : Nat) (e : Int) : Nat × Nat :=
  if 0 ≤ e then (num, den * Nat.pow 2 e.toNat) else (num * Nat.pow 2 (-e).toNat, den)

/-- The natural number nearest to a fraction, the even one of two. -/
def nearest (num den : Nat) : Nat :=
  let q := num / den
  let twice := 2 * (num % den)
  if twice < den then q else if den < twice then q + 1 else q + q % 2

/-- The exponent at which a positive fraction has a mantissa of 53 bits, or the least one. -/
def exponentFor (num den : Nat) : Int :=
  let e : Int := (Nat.log2 num : Int) - Nat.log2 den - 53
  let (n, d) := scale num den e
  max minExponent (if n / d < Nat.pow 2 53 then e else e + 1)

/-- The number nearest to a fraction; none if it is out of range. -/
def round? (negative : Bool) (num den : Nat) : Option Binary64 :=
  if num = 0 then some { negative, mantissa := 0, exponent := minExponent }
  else
    let e := exponentFor num den
    let (n, d) := scale num den e
    let m := nearest n d
    let (m, e) := if m = Nat.pow 2 53 then (Nat.pow 2 52, e + 1) else (m, e)
    if maxExponent < e then none else some { negative, mantissa := m, exponent := e }

def fraction (x : Binary64) : Nat × Nat :=
  if 0 ≤ x.exponent then (x.mantissa * Nat.pow 2 x.exponent.toNat, 1)
  else (x.mantissa, Nat.pow 2 (-x.exponent).toNat)

/-- Whether the number is zero, of either sign. -/
def isZero (x : Binary64) : Bool := x.mantissa = 0

def zero (negative : Bool) : Binary64 := { negative, mantissa := 0, exponent := minExponent }

/-- The number nearest to a natural number. -/
def ofNat? (n : Nat) : Option Binary64 := round? false n 1

def mul? (x y : Binary64) : Option Binary64 :=
  round? (x.negative != y.negative) (x.fraction.1 * y.fraction.1) (x.fraction.2 * y.fraction.2)

/-- The quotient by a number that is not zero. -/
def div? (x y : Binary64) : Option Binary64 :=
  round? (x.negative != y.negative) (x.fraction.1 * y.fraction.2) (x.fraction.2 * y.fraction.1)

def withSign (negative : Bool) (x : Binary64) : Binary64 := { x with negative }

/-! ## Decimal digits -/

/-- A natural number times a power of ten. -/
structure Decimal where
  digits : Nat
  exponent : Int
  deriving DecidableEq, Repr

/-- The same decimal without trailing zeros, up to `n` of them. -/
def Decimal.trim : Nat → Decimal → Decimal
  | 0, d => d
  | n + 1, d =>
    if d.digits ≠ 0 ∧ d.digits % 10 = 0 then
      Decimal.trim n { digits := d.digits / 10, exponent := d.exponent + 1 }
    else d

def digitCount (n : Nat) : Nat := (Nat.toDigits 10 n).length

/-- The exponent of the leading decimal digit of a positive fraction above `10 ^ -400`. -/
def magnitude (num den : Nat) : Int := (digitCount (num * Nat.pow 10 400 / den) : Int) - 401

/-- The numbers that read back as `x` lie between these two fractions of one denominator. -/
structure Interval where
  low : Nat
  value : Nat
  high : Nat
  den : Nat
  /-- Whether the ends belong to it. -/
  closed : Bool

/-- The interval around a positive number: half the way to the next number on either side. The
next lower one is nearer where the mantissa is the least of its binade. -/
def interval (x : Binary64) : Interval :=
  let below := if x.mantissa = Nat.pow 2 52 ∧ x.exponent ≠ minExponent then 1 else 2
  let (unit, den) := scale 1 1 (-(x.exponent - 2))
  { low := (4 * x.mantissa - below) * unit
    value := 4 * x.mantissa * unit
    high := (4 * x.mantissa + 2) * unit
    den := den
    closed := x.mantissa % 2 = 0 }

/-- The interval in units of a power of ten. -/
def Interval.inUnits (i : Interval) (e : Int) : Interval :=
  let (up, down) := if 0 ≤ e then (1, Nat.pow 10 e.toNat) else (Nat.pow 10 (-e).toNat, 1)
  { i with low := i.low * up, value := i.value * up, high := i.high * up, den := i.den * down }

/-- Whether a natural number lies in the interval. -/
def Interval.contains (i : Interval) (n : Nat) : Bool :=
  if i.closed then i.low ≤ n * i.den && n * i.den ≤ i.high
  else i.low < n * i.den && n * i.den < i.high

/-- The neighbour of the value on the grid of natural numbers that lies in the interval; of two
the nearer one. -/
def Interval.neighbour? (i : Interval) : Option Nat :=
  let n := i.value / i.den
  match i.contains n, i.contains (n + 1) with
  | true, true => some (nearest i.value i.den)
  | true, false => some n
  | false, true => some (n + 1)
  | false, false => none

/-- The decimal on the coarsest grid that has one, among `n` grids from `e` on. -/
def Interval.coarsest (i : Interval) (e : Int) : Nat → Decimal
  | 0 => { digits := (i.inUnits e).value / (i.inUnits e).den, exponent := e }
  | n + 1 =>
    match (i.inUnits e).neighbour? with
    | some digits => { digits, exponent := e }
    | none => i.coarsest (e - 1) n

/-- The fewest digits that read back as the absolute value; seventeen always do. -/
def shortest (x : Binary64) : Decimal :=
  if x.isZero then { digits := 0, exponent := 0 }
  else
    let e := magnitude x.fraction.1 x.fraction.2
    (x.interval.coarsest e 17).trim 17

end Binary64

end Clipboard
