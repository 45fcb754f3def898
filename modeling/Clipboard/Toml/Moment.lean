import Clipboard.Text.Number
import Clipboard.Toml.Scan

/-!
# Moments

A moment is a date of the calendar, a time of day, or a date with a time; the last may tell the
offset of its zone. `scan` takes a moment off a text and `write` puts it down in one form: a letter
T between date and time, no zeros at the end of a fraction, and the offset with its sign.

A time of day is exact to the nanosecond; finer places are dropped.
-/

namespace Clipboard.Toml

/-- A date of the calendar. -/
structure Date where
  year : Nat
  month : Nat
  day : Nat
  deriving DecidableEq, Repr

/-- A time of day; a minute may have a leap second. -/
structure TimeOfDay where
  hour : Nat
  minute : Nat
  second : Nat
  nanosecond : Nat
  deriving DecidableEq, Repr

/-- How a zone differs from universal time. -/
inductive Offset where
  /-- Not at all. -/
  | universal
  | ahead (minutes : Int)
  deriving DecidableEq, Repr

/-- A date, a time of day or both. -/
inductive Moment where
  | date (d : Date)
  | time (t : TimeOfDay)
  | dateTime (d : Date) (t : TimeOfDay) (offset : Option Offset)
  deriving DecidableEq, Repr

/-- The number that two digits spell, if it is not above a limit. -/
def pair? (limit : Nat) (a b : Char) : Option Nat :=
  (Text.natural? [a, b]).filter (· ≤ limit)

/-- A number with zeros in front, so that it has at least so many digits. -/
def padded (width n : Nat) : List Char :=
  let ds := Nat.toDigits 10 n
  List.replicate (width - ds.length) '0' ++ ds

namespace Date

def daysIn (year month : Nat) : Nat :=
  if month = 2 then
    if year % 4 = 0 ∧ (year % 100 ≠ 0 ∨ year % 400 = 0) then 29 else 28
  else if month = 4 ∨ month = 6 ∨ month = 9 ∨ month = 11 then 30
  else 31

/-- A date: year, month and day with hyphens between them. -/
def scan : Scan Date
  | y1 :: y2 :: y3 :: y4 :: '-' :: m1 :: m2 :: '-' :: d1 :: d2 :: rest => do
    let year ← Text.natural? [y1, y2, y3, y4]
    let month ← pair? 12 m1 m2
    let day ← pair? (daysIn year month) d1 d2
    if 1 ≤ month ∧ 1 ≤ day then return ({ year, month, day }, rest) else failure
  | _ => none

def write (d : Date) : List Char :=
  padded 4 d.year ++ '-' :: padded 2 d.month ++ '-' :: padded 2 d.day

end Date

namespace TimeOfDay

/-- The nanoseconds that the places behind the point of a second spell. -/
def nanoseconds? (places : List Char) : Option Nat :=
  if places.isEmpty then none
  else Text.natural? ((places ++ List.replicate 9 '0').take 9)

/-- A time of day: hour, minute and second with colons between them, perhaps a fraction of the
second. -/
def scan : Scan TimeOfDay
  | h1 :: h2 :: ':' :: m1 :: m2 :: ':' :: s1 :: s2 :: rest => do
    let hour ← pair? 23 h1 h2
    let minute ← pair? 59 m1 m2
    let second ← pair? 60 s1 s2
    match rest with
    | '.' :: rest =>
      let (places, rest) := rest.span Char.isDigit
      return ({ hour, minute, second, nanosecond := ← nanoseconds? places }, rest)
    | rest => return ({ hour, minute, second, nanosecond := 0 }, rest)
  | _ => none

/-- The point and the places of a fraction, without zeros at the end. -/
def writeFraction (nanosecond : Nat) : List Char :=
  if nanosecond = 0 then []
  else '.' :: ((padded 9 nanosecond).reverse.dropWhile (· = '0')).reverse

/-- The text of a time of day. -/
def write (t : TimeOfDay) : List Char :=
  padded 2 t.hour ++ ':' :: padded 2 t.minute ++ ':' :: padded 2 t.second
    ++ writeFraction t.nanosecond

end TimeOfDay

namespace Offset

/-- The offset that is the whole of a text: a letter Z, or hours and minutes behind a sign. -/
def ofText? : List Char → Option Offset
  | ['Z'] | ['z'] => some universal
  | [sign, h1, h2, ':', m1, m2] => do
    let hours ← pair? 23 h1 h2
    let minutes ← pair? 59 m1 m2
    let distance : Int := 60 * hours + minutes
    match sign with
    | '+' => return ahead distance
    | '-' => return ahead (-distance)
    | _ => failure
  | _ => none

/-- The text of an offset; no difference has a plus sign. -/
def write : Offset → List Char
  | universal => ['Z']
  | ahead n =>
    (if n < 0 then '-' else '+') :: padded 2 (n.natAbs / 60) ++ ':' :: padded 2 (n.natAbs % 60)

end Offset

namespace Moment

/-- A date with the time that is the whole of a text, perhaps with an offset. -/
def withTime? (d : Date) (cs : List Char) : Option Moment := do
  let (t, rest) ← TimeOfDay.scan cs
  if rest.isEmpty then return dateTime d t none
  else return dateTime d t (some (← Offset.ofText? rest))

/-- The moment that is the whole of a text, date and time with a letter T between them. -/
def ofText? (cs : List Char) : Option Moment :=
  match Date.scan cs with
  | some (d, []) => some (date d)
  | some (d, 'T' :: rest) | some (d, 't' :: rest) => withTime? d rest
  | some _ => none
  | none =>
    match TimeOfDay.scan cs with
    | some (t, []) => some (time t)
    | _ => none

def write : Moment → List Char
  | date d => d.write
  | time t => t.write
  | dateTime d t offset => d.write ++ 'T' :: t.write ++ (offset.elim [] Offset.write)

end Moment

end Clipboard.Toml
