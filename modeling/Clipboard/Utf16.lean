import Clipboard.Text.Hex

/-!
# UTF-16

A text is a sequence of code units below `2 ^ 16`; a character above U+FFFF takes two of them, a
high and a low surrogate. `decode` puts U+FFFD for each surrogate without its partner.

Each unit is two bytes in one of two orders. `unitsOf` pairs the bytes up and tells whether one is
left over.
-/

namespace Clipboard.Utf16

/-- A unit that begins a pair. -/
def isHigh (u : Nat) : Bool := 0xD800 ≤ u && u ≤ 0xDBFF

/-- A unit that ends a pair. -/
def isLow (u : Nat) : Bool := 0xDC00 ≤ u && u ≤ 0xDFFF

def join (high low : Nat) : Char := Char.ofNat (0x10000 + (high - 0xD800) * 0x400 + (low - 0xDC00))

def encodeChar (c : Char) : List Nat :=
  let n := c.toNat
  if n < 0x10000 then [n]
  else [0xD800 + (n - 0x10000) / 0x400, 0xDC00 + (n - 0x10000) % 0x400]

theorem encodeChar_ne_nil (c : Char) : encodeChar c ≠ [] := by
  simp only [encodeChar]
  split <;> simp

def encode (cs : List Char) : List Nat := cs.flatMap encodeChar

def decode : List Nat → List Char
  | [] => []
  | [u] => [if isHigh u || isLow u then '\ufffd' else Char.ofNat u]
  | u :: v :: rest =>
    if isHigh u then
      if isLow v then join u v :: decode rest else '\ufffd' :: decode (v :: rest)
    else if isLow u then '\ufffd' :: decode (v :: rest)
    else Char.ofNat u :: decode (v :: rest)

/-! ## Bytes -/

/-- Which byte of a unit comes first. -/
inductive Order where
  /-- The high byte first. -/
  | big
  /-- The low byte first. -/
  | little
  deriving DecidableEq, Repr

def unitBytes (order : Order) (u : Nat) : Bytes :=
  match order with
  | .big => [UInt8.ofNat (u / 0x100), UInt8.ofNat (u % 0x100)]
  | .little => [UInt8.ofNat (u % 0x100), UInt8.ofNat (u / 0x100)]

def unit (order : Order) (first second : UInt8) : Nat :=
  match order with
  | .big => first.toNat * 0x100 + second.toNat
  | .little => second.toNat * 0x100 + first.toNat

theorem unit_lt (order : Order) (a b : UInt8) : unit order a b < 0x10000 := by
  have ha := a.toNat_lt
  have hb := b.toNat_lt
  cases order <;> simp only [unit] <;> omega

/-- The units of the bytes in pairs, and whether one byte is left over. -/
def unitsOf (order : Order) : Bytes → List Nat × Bool
  | [] => ([], false)
  | [_] => ([], true)
  | a :: b :: rest => (unit order a b :: (unitsOf order rest).1, (unitsOf order rest).2)

/-- The text of the bytes; a byte left over reads as U+FFFD. -/
def decodeBytes (order : Order) (bytes : Bytes) : List Char :=
  decode (unitsOf order bytes).1 ++ (if (unitsOf order bytes).2 then ['\ufffd'] else [])

def charBytes (order : Order) (c : Char) : Bytes := (encodeChar c).flatMap (unitBytes order)

theorem charBytes_ne_nil (order : Order) (c : Char) : charBytes order c ≠ [] := by
  unfold charBytes
  cases h : encodeChar c with
  | nil => exact absurd h (encodeChar_ne_nil c)
  | cons u us => cases order <;> simp [unitBytes]

end Clipboard.Utf16
