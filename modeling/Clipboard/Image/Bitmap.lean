import Clipboard.Endian
import Clipboard.Error
import Clipboard.Image

/-!
# Device-independent bitmaps

A bitmap is a header of at least 40 bytes, which says how long it is itself, and rows of pixels of
24 or 32 bits: blue, green, red and, with 32 bits, alpha. A row is filled up to a multiple of four
bytes. The rows go from the bottom to the top if the height is positive, from the top to the bottom
if it is negative.

`create` writes bitmaps of 32 bits from the top to the bottom, `parse` reads any, and `toBmp` puts
the header of a BMP file before one.
-/

namespace Clipboard.Bitmap

def headerLength : Nat := 40

/-- The length of the header of a BMP file. -/
def fileHeaderLength : Nat := 14

/-- A signed number of 32 bits from the bits. -/
def signed (n : Nat) : Int := if n < Nat.pow 2 31 then n else (n : Int) - Int.pow 2 32

/-- The header of a bitmap of 32 bits for a pixel, its rows from the top to the bottom. -/
def header (width height : Nat) : Bytes :=
  Endian.little 4 headerLength ++ Endian.little 4 width ++ Endian.little 4 (Nat.pow 2 32 - height)
    ++ Endian.little 2 1 ++ Endian.little 2 32 ++ Endian.little 4 0
    ++ Endian.little 4 (width * height * 4) ++ List.replicate 16 0

/-- The bytes of a pixel of 32 bits. -/
def pixelBytes (p : Pixel) : Bytes := [p.blue, p.green, p.red, p.alpha]

/-- The bitmap of an image; the sides must fit 31 bits and the bytes of all pixels 32. -/
def create (i : Image) : Except Error Bytes :=
  if i.width * i.height * 4 < Nat.pow 2 32 ∧ i.width < Nat.pow 2 31 ∧ i.height < Nat.pow 2 31 then
    .ok (header i.width i.height ++ i.pixels.flatMap pixelBytes)
  else .error (.invalidData .bitmapTooLarge)

/-- How the pixels of a bitmap are stored. -/
structure Layout where
  /-- The number of pixels in a row. -/
  width : Nat
  height : Nat
  /-- Whether the first row is the lowest. -/
  bottomUp : Bool
  /-- Three or four. -/
  bytesPerPixel : Nat
  deriving DecidableEq, Repr

namespace Layout

/-- The length of a row, filled up to a multiple of four. -/
def rowLength (l : Layout) : Nat := (l.width * l.bytesPerPixel + 3) / 4 * 4

def length (l : Layout) : Nat := l.rowLength * l.height

/-- Whether the bytes of the rows, and those of the image, can be counted in 64 bits. -/
def isCountable (l : Layout) : Bool :=
  l.length < Nat.pow 2 64 && l.width * l.height * 4 < Nat.pow 2 64

/-- The pixel of a column and row, in bytes that hold all rows. -/
def pixel (l : Layout) (data : Array UInt8) (x y : Nat) : Pixel :=
  let row := if l.bottomUp then l.height - 1 - y else y
  let start := row * l.rowLength + x * l.bytesPerPixel
  { blue := data.getD start 0
    green := data.getD (start + 1) 0
    red := data.getD (start + 2) 0
    alpha := if l.bytesPerPixel = 4 then data.getD (start + 3) 0 else 255 }

/-- The image in bytes that hold all rows. -/
def image (l : Layout) (data : Array UInt8) : Image := Image.ofFn l.width l.height (l.pixel data)

end Layout

/-- The layout that the header of a bitmap gives. -/
def layout (dib : Bytes) : Except Error Layout :=
  let height := signed (Endian.littleAt dib 8 4)
  let bits := Endian.littleAt dib 14 2
  if bits = 32 ∨ bits = 24 then
    .ok
      { width := (signed (Endian.littleAt dib 4 4)).natAbs
        height := height.natAbs
        bottomUp := 0 < height
        bytesPerPixel := bits / 8 }
  else .error (.imageDecode (.bitDepth bits))

def parse (dib : Bytes) : Except Error Image :=
  if dib.length < headerLength then .error (.invalidData .bitmapTooSmall)
  else
    let size := Endian.littleAt dib 0 4
    if size < headerLength ∨ dib.length < size then .error (.invalidData .bitmapHeader)
    else
      match layout dib with
      | .error e => .error e
      | .ok l =>
        if !l.isCountable then .error (.invalidData .bitmapTooLarge)
        else
          let data := (dib.drop size).toArray
          if data.size < l.length then .error (.invalidData .bitmapTruncated)
          else .ok (l.image data)

/-- A bitmap as a BMP file. The numbers in the header are those of 32 bits. -/
def toBmp (dib : Bytes) : Except Error Bytes :=
  if dib.length < headerLength then .error (.invalidData .bitmapTooSmall)
  else
    let size := Endian.littleAt dib 0 4
    .ok
      ([0x42, 0x4D] ++ Endian.little 4 (fileHeaderLength + dib.length) ++ Endian.little 4 0
        ++ Endian.little 4 (fileHeaderLength + size) ++ dib)

end Clipboard.Bitmap
