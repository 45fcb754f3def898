import Clipboard.Endian
import Clipboard.Error
import Clipboard.Image
import Clipboard.Image.Bits

/-!
# GIF files

An image is written in a fixed palette of 256 colours, eight levels of red and of green and four of
blue. The codes of the pixels are not compressed: the table of sequences is cleared before it could
grow beyond nine bits.

Files are not read beyond their header.
-/

namespace Clipboard.Gif

def signature : Bytes := "GIF89a".toList.map (fun c => UInt8.ofNat c.toNat)

/-- The place in the palette nearest below a colour. -/
def paletteIndex (p : Pixel) : Nat :=
  p.red.toNat / 32 * 32 + p.green.toNat / 32 * 4 + p.blue.toNat / 64

/-- The colour of a place in the palette. -/
def paletteColour (n : Nat) : Bytes :=
  [UInt8.ofNat (n / 32 * 255 / 7), UInt8.ofNat (n / 4 % 8 * 255 / 7), UInt8.ofNat (n % 4 * 85)]

/-- The code that clears the table of sequences. -/
def clear : Bits.Code := ⟨256, 9⟩

/-- The code behind the last pixel. -/
def finish : Bits.Code := ⟨257, 9⟩

/-- The codes of pixels, with a clear code before every 254 of them. -/
def codes (ps : List Pixel) : List Bits.Code :=
  match ps with
  | [] => []
  | p :: ps =>
    clear :: (p :: ps.take 253).map (fun p => ⟨paletteIndex p, 9⟩) ++ codes (ps.drop 253)
termination_by ps.length
decreasing_by simp only [List.length_drop, List.length_cons]; omega

/-- Blocks of at most 255 bytes, each behind its length. -/
def blocks (bytes : Bytes) : Bytes :=
  match bytes with
  | [] => []
  | b :: bs =>
    let block := b :: bs.take 254
    UInt8.ofNat block.length :: block ++ blocks (bs.drop 254)
termination_by bytes.length
decreasing_by simp only [List.length_drop, List.length_cons]; omega

def encode (i : Image) : Except Error Bytes :=
  if i.width = 0 ∨ i.height = 0 ∨ 65535 < i.width ∨ 65535 < i.height then
    .error (.imageEncode .malformed)
  else
    let size := Endian.little 2 i.width ++ Endian.little 2 i.height
    .ok
      (signature ++ size ++ [0xF7, 0, 0] ++ (List.range 256).flatMap paletteColour
        ++ [0x2C, 0, 0, 0, 0] ++ size ++ [0, 8] ++ blocks (Bits.packLow (codes i.pixels ++ [finish]))
        ++ [0, 0x3B])

/-- The width and the height that a file begins with. -/
def size? (file : Bytes) : Option (Nat × Nat) :=
  if file.take 3 = signature.take 3 ∧ 10 ≤ file.length then
    some (Endian.littleAt file 6 2, Endian.littleAt file 8 2)
  else none

end Clipboard.Gif
