import Clipboard.Text.Hex

/-!
# Bits packed into bytes

Codes of some width one after the other. `packLow` fills each byte from its lowest bit, `packHigh`
from its highest; the last byte is filled up with zeros or with ones.
-/

namespace Clipboard.Bits

/-- A code and its width in bits. -/
structure Code where
  value : Nat
  width : Nat
  deriving DecidableEq, Repr

/-- The bits of a code, the highest first. -/
def Code.bits (c : Code) : List Bool :=
  (List.range c.width).map (fun i => c.value.testBit (c.width - 1 - i))

/-- The number that bits spell, the highest first. -/
def value (bits : List Bool) : Nat := bits.foldl (fun n b => 2 * n + b.toNat) 0

/-- Bytes of eight bits each, `byte` telling the number that a full byte's bits spell. -/
def pack (byte : List Bool → Nat) (fill : Bool) (bits : List Bool) : Bytes :=
  if _h : bits = [] then []
  else
    let eight := bits.take 8
    UInt8.ofNat (byte (eight ++ List.replicate (8 - eight.length) fill))
      :: pack byte fill (bits.drop 8)
termination_by bits.length
decreasing_by
  have := List.length_pos_iff.mpr _h
  simp only [List.length_drop]
  omega

/-- Codes from the lowest bit of each byte on. -/
def packLow (codes : List Code) : Bytes :=
  pack (fun bits => value bits.reverse) false (codes.flatMap (fun c => c.bits.reverse))

/-- Codes from the highest bit of each byte on. -/
def packHigh (codes : List Code) : Bytes := pack value true (codes.flatMap Code.bits)

end Clipboard.Bits
