import Clipboard.Text.Hex

/-!
# UTF-8

`encodeChar` writes one character in one to four bytes. Reading goes through `next`, which takes
one character, or the longest ill-formed start of one, off the front of the bytes. `decodeLossy`
puts U+FFFD for each ill-formed start, `decode?` fails on the first.

`char?` reads bytes that are to hold exactly one character.

## Termination

`next` never gives back more than it was given, so the remaining bytes are the measure.
-/

namespace Clipboard.Utf8

/-- The character that stands for what could not be read. -/
def replacement : Char := '\ufffd'

def encodeChar (c : Char) : Bytes :=
  let n := c.toNat
  if n < 0x80 then [UInt8.ofNat n]
  else if n < 0x800 then [UInt8.ofNat (0xC0 + n / 0x40), UInt8.ofNat (0x80 + n % 0x40)]
  else if n < 0x10000 then
    [UInt8.ofNat (0xE0 + n / 0x1000), UInt8.ofNat (0x80 + n / 0x40 % 0x40),
      UInt8.ofNat (0x80 + n % 0x40)]
  else
    [UInt8.ofNat (0xF0 + n / 0x40000), UInt8.ofNat (0x80 + n / 0x1000 % 0x40),
      UInt8.ofNat (0x80 + n / 0x40 % 0x40), UInt8.ofNat (0x80 + n % 0x40)]

theorem encodeChar_ne_nil (c : Char) : encodeChar c ≠ [] := by
  simp only [encodeChar]
  split
  · simp
  · split
    · simp
    · split <;> simp

def encode (cs : List Char) : Bytes := cs.flatMap encodeChar

/-! ## Reading -/

/-- A byte that continues a character. -/
def isTail (b : UInt8) : Bool := 0x80 ≤ b.toNat && b.toNat ≤ 0xBF

/-- Whether a second byte may follow a leading byte of three or four: no longer form than needed,
no surrogate, nothing above U+10FFFF. -/
def isSecond (lead b : UInt8) : Bool :=
  if lead.toNat = 0xE0 then 0xA0 ≤ b.toNat && b.toNat ≤ 0xBF
  else if lead.toNat = 0xED then 0x80 ≤ b.toNat && b.toNat ≤ 0x9F
  else if lead.toNat = 0xF0 then 0x90 ≤ b.toNat && b.toNat ≤ 0xBF
  else if lead.toNat = 0xF4 then 0x80 ≤ b.toNat && b.toNat ≤ 0x8F
  else isTail b

/-- How many bytes a character with this leading byte has; none for a byte that leads nothing. -/
def length? (lead : UInt8) : Option Nat :=
  let n := lead.toNat
  if n < 0x80 then some 1
  else if n < 0xC2 then none
  else if n < 0xE0 then some 2
  else if n < 0xF0 then some 3
  else if n < 0xF5 then some 4
  else none

/-- The six low bits of a continuing byte. -/
def low (b : UInt8) : Nat := b.toNat % 0x40

def next2 (lead : UInt8) : Bytes → Option Char × Bytes
  | b :: rest =>
    if isTail b then (some (Char.ofNat (lead.toNat % 0x20 * 0x40 + low b)), rest)
    else (none, b :: rest)
  | [] => (none, [])

def next3 (lead : UInt8) : Bytes → Option Char × Bytes
  | b :: c :: rest =>
    if isSecond lead b then
      if isTail c then
        (some (Char.ofNat (lead.toNat % 0x10 * 0x1000 + low b * 0x40 + low c)), rest)
      else (none, c :: rest)
    else (none, b :: c :: rest)
  | [b] => if isSecond lead b then (none, []) else (none, [b])
  | [] => (none, [])

def next4 (lead : UInt8) : Bytes → Option Char × Bytes
  | b :: c :: d :: rest =>
    if isSecond lead b then
      if isTail c then
        if isTail d then
          (some (Char.ofNat
            (lead.toNat % 0x08 * 0x40000 + low b * 0x1000 + low c * 0x40 + low d)), rest)
        else (none, d :: rest)
      else (none, c :: d :: rest)
    else (none, b :: c :: d :: rest)
  | [b, c] =>
    if isSecond lead b then if isTail c then (none, []) else (none, [c])
    else (none, [b, c])
  | [b] => if isSecond lead b then (none, []) else (none, [b])
  | [] => (none, [])

/-- One character, or nothing for the longest ill-formed start of one, and the bytes after it. -/
def next (lead : UInt8) (rest : Bytes) : Option Char × Bytes :=
  match length? lead with
  | some 1 => (some (Char.ofNat lead.toNat), rest)
  | some 2 => next2 lead rest
  | some 3 => next3 lead rest
  | some 4 => next4 lead rest
  | _ => (none, rest)

theorem length_next_le (lead : UInt8) (rest : Bytes) : (next lead rest).2.length ≤ rest.length := by
  unfold next
  split
  · simp
  · unfold next2
    split
    · split <;> simp
    · simp
  · unfold next3
    split
    · split
      · split <;> simp; omega
      · simp
    · split <;> simp
    · simp
  · unfold next4
    split
    · split
      · split
        · split <;> simp; omega
        · simp
      · simp
    · split
      · split <;> simp
      · simp
    · split <;> simp
    · simp
  · simp

/-- The text of the bytes, with U+FFFD for each ill-formed start of a character. -/
def decodeLossy : Bytes → List Char
  | [] => []
  | lead :: rest => (next lead rest).1.getD replacement :: decodeLossy (next lead rest).2
termination_by bytes => bytes.length
decreasing_by
  have := length_next_le lead rest
  simp; omega

def decode? : Bytes → Option (List Char)
  | [] => some []
  | lead :: rest =>
    match (next lead rest).1 with
    | none => none
    | some c => (decode? (next lead rest).2).map (c :: ·)
termination_by bytes => bytes.length
decreasing_by
  have := length_next_le lead rest
  simp; omega

/-- The character that all of the bytes together hold. -/
def char? : Bytes → Option Char
  | [] => none
  | lead :: rest =>
    match next lead rest with
    | (some c, []) => some c
    | _ => none

end Clipboard.Utf8
