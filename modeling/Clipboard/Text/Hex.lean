/-!
# Hexadecimal digits

`encode` writes each byte as two lower-case digits. `decode?` reads pairs of digits of either
case, and fails on an odd number of characters or on any other character.
-/

namespace Clipboard

abbrev Bytes := List UInt8

namespace Hex

/-- The digit of a value below sixteen, in lower case. -/
def digit (n : Nat) : Char := if n < 10 then Char.ofNat (0x30 + n) else Char.ofNat (0x57 + n)

/-- The digit of a value below sixteen, in upper case. -/
def upperDigit (n : Nat) : Char := if n < 10 then Char.ofNat (0x30 + n) else Char.ofNat (0x37 + n)

/-- The value of a digit of either case. -/
def value? (c : Char) : Option Nat :=
  let n := c.toNat
  if 0x30 ≤ n && n ≤ 0x39 then some (n - 0x30)
  else if 0x61 ≤ n && n ≤ 0x66 then some (n - 0x57)
  else if 0x41 ≤ n && n ≤ 0x46 then some (n - 0x37)
  else none

theorem value?_digit {n : Nat} (h : n < 16) : value? (digit n) = some n := by
  have hall : ∀ m ∈ List.range 16, value? (digit m) = some m := by decide
  exact hall n (List.mem_range.mpr h)

def encodeByte (b : UInt8) : List Char := [digit (b.toNat / 16), digit (b.toNat % 16)]

def encode (bytes : Bytes) : List Char := bytes.flatMap encodeByte

/-- The bytes that pairs of digits spell. -/
def decode? : List Char → Option Bytes
  | [] => some []
  | [_] => none
  | high :: low :: rest => do
    let h ← value? high
    let l ← value? low
    let bytes ← decode? rest
    return UInt8.ofNat (16 * h + l) :: bytes

/-- Reading back what was written gives the bytes. -/
theorem decode?_encode (bytes : Bytes) : decode? (encode bytes) = some bytes := by
  induction bytes with
  | nil => rfl
  | cons b rest ih =>
    have hb : b.toNat < 256 := b.toNat_lt
    have heq : encode (b :: rest) = digit (b.toNat / 16) :: digit (b.toNat % 16) :: encode rest := rfl
    rw [heq, decode?, value?_digit (by omega), value?_digit (by omega), ih]
    show some (UInt8.ofNat (16 * (b.toNat / 16) + b.toNat % 16) :: rest) = some (b :: rest)
    rw [Nat.div_add_mod b.toNat 16, UInt8.ofNat_toNat]

end Hex

end Clipboard
