import Clipboard.Endian
import Clipboard.Error
import Clipboard.Image
import Clipboard.Image.Bits

/-!
# JPEG files

A JPEG file holds blocks of eight by eight points, for each block the spectrum of its luminance and
of its two chrominances. Images are written with the lowest frequency only, so that a block appears
in its mean colour; alpha is dropped.

Files are not read beyond their header.
-/

namespace Clipboard.Jpeg

/-- A segment: a marker, the length, and the data. -/
def segment (marker : UInt8) (data : Bytes) : Bytes :=
  0xFF :: marker :: Endian.big 2 (data.length + 2) ++ data

/-- The code lengths of the differences between means: how many codes of each length there are. -/
def meanCounts : Bytes := [0, 1, 5, 1, 1, 1, 1, 1, 1, 0, 0, 0, 0, 0, 0, 0]

/-- The code of the number of bits of a difference. -/
def categoryCode (category : Nat) : Bits.Code :=
  if category = 0 then ⟨0, 2⟩
  else if category ≤ 5 then ⟨category + 1, 3⟩
  else ⟨Nat.pow 2 (category - 2) - 2, category - 2⟩

/-- The number of bits of a difference. -/
def category (d : Int) : Nat := if d = 0 then 0 else Nat.log2 d.natAbs + 1

/-- The codes of a difference: the number of its bits, then the bits, one less if it is negative. -/
def differenceCodes (d : Int) : List Bits.Code :=
  let n := category d
  [categoryCode n, ⟨(if d < 0 then d + Int.pow 2 n - 1 else d).toNat, n⟩]

/-- The code that says that a block has no further frequencies. -/
def endOfBlock : Bits.Code := ⟨0, 1⟩

/-- Luminance and chrominances, in thousandths, around zero. -/
def components (p : Pixel) : List Int :=
  let r : Int := p.red.toNat
  let g : Int := p.green.toNat
  let b : Int := p.blue.toNat
  [299 * r + 587 * g + 114 * b - 128000, 500 * b - 169 * r - 331 * g, 500 * r - 419 * g - 81 * b]

/-- The points of a block; at the right and the lower end the last ones are repeated. -/
def block (i : Image) (pixels : Array Pixel) (x y : Nat) : List Pixel :=
  (List.range 64).map (fun k =>
    let column := min (8 * x + k % 8) (i.width - 1)
    let row := min (8 * y + k / 8) (i.height - 1)
    pixels.getD (row * i.width + column) (Pixel.grey 0))

/-- The lowest frequencies of a block. -/
def means (ps : List Pixel) : List Int :=
  ps.foldl (fun sums p => List.zipWith (· + ·) sums (components p)) [0, 0, 0]
    |>.map (fun sum => Int.fdiv sum 8000)

def allMeans (i : Image) : List (List Int) :=
  let columns := (i.width + 7) / 8
  let pixels := i.pixels.toArray
  (List.range (columns * ((i.height + 7) / 8))).map (fun k =>
    means (block i pixels (k % columns) (k / columns)))

/-- The codes of blocks, as differences from the block before. -/
def blockCodes (before : List Int) : List (List Int) → List Bits.Code
  | [] => []
  | ms :: rest =>
    (List.zipWith (fun m b => differenceCodes (m - b) ++ [endOfBlock]) ms before).flatten
      ++ blockCodes ms rest

/-- A zero behind every byte that could be taken for the beginning of a marker. -/
def stuff (bytes : Bytes) : Bytes := bytes.flatMap (fun b => if b = 0xFF then [0xFF, 0] else [b])

def encode (i : Image) : Except Error Bytes :=
  if i.width = 0 ∨ i.height = 0 ∨ 65535 < i.width ∨ 65535 < i.height then
    .error (.imageEncode .malformed)
  else
    let header := "JFIF".toList.map (fun c => UInt8.ofNat c.toNat) ++ [0, 1, 1, 0, 0, 1, 0, 1, 0, 0]
    let frame := 8 :: Endian.big 2 i.height ++ Endian.big 2 i.width
      ++ [3, 1, 0x11, 0, 2, 0x11, 0, 3, 0x11, 0]
    let meanTable := 0 :: meanCounts ++ (List.range 12).map UInt8.ofNat
    let restTable := 0x10 :: 1 :: List.replicate 15 0 ++ [0]
    .ok
      ([0xFF, 0xD8] ++ segment 0xE0 header ++ segment 0xDB (0 :: List.replicate 64 1)
        ++ segment 0xC0 frame ++ segment 0xC4 meanTable ++ segment 0xC4 restTable
        ++ segment 0xDA [3, 1, 0, 2, 0, 3, 0, 0, 63, 0]
        ++ stuff (Bits.packHigh (blockCodes [0, 0, 0] (allMeans i))) ++ [0xFF, 0xD9])

/-- The width and the height in the frame header among segments. -/
def frameSize? (bytes : Bytes) : Option (Nat × Nat) :=
  match bytes with
  | 0xFF :: marker :: a :: b :: rest =>
    if marker = 0xC0 then some (Endian.bigAt rest 3 2, Endian.bigAt rest 1 2)
    else frameSize? (rest.drop (Endian.ofBig [a, b] - 2))
  | _ => none
termination_by bytes.length
decreasing_by simp only [List.length_drop, List.length_cons]; omega

/-- The width and the height in a file's frame header. -/
def size? (file : Bytes) : Option (Nat × Nat) :=
  if file.take 3 = [0xFF, 0xD8, 0xFF] then frameSize? (file.drop 2) else none

end Clipboard.Jpeg
