import Clipboard.Image.Bitmap

/-!
# BMP files

A BMP file is a file header, which says where the pixels begin, and a bitmap. Images are written
with 32 bits for a pixel, their channels named by masks. Read are bitmaps of 24 and of 32 bits, and
those of 32 bits with the masks that are written; without masks there is no alpha.
-/

namespace Clipboard.Bmp

/-- The length of the bitmap header with masks. -/
def maskedHeaderLength : Nat := 108

/-- The masks of red, green, blue and alpha. -/
def masks : Bytes :=
  Endian.little 4 0xFF0000 ++ Endian.little 4 0xFF00 ++ Endian.little 4 0xFF
    ++ Endian.little 4 0xFF000000

/-- The number that says that the channels are named by masks. -/
def byMasks : Nat := 3

/-- The header of a bitmap with masks. -/
def header (width height : Nat) : Bytes :=
  Endian.little 4 maskedHeaderLength ++ Endian.little 4 width
    ++ Endian.little 4 (Nat.pow 2 32 - height) ++ Endian.little 2 1 ++ Endian.little 2 32
    ++ Endian.little 4 byMasks ++ Endian.little 4 (width * height * 4) ++ List.replicate 16 0
    ++ masks ++ List.replicate 52 0

def encode (i : Image) : Except Error Bytes :=
  if i.width * i.height * 4 < Nat.pow 2 31 ∧ i.width < Nat.pow 2 31 ∧ i.height < Nat.pow 2 31 then
    let dib := header i.width i.height ++ i.pixels.flatMap Bitmap.pixelBytes
    let offset := Bitmap.fileHeaderLength + maskedHeaderLength
    .ok
      ([0x42, 0x4D] ++ Endian.little 4 (Bitmap.fileHeaderLength + dib.length)
        ++ Endian.little 4 0 ++ Endian.little 4 offset ++ dib)
  else .error (.imageEncode .malformed)

/-- The lengths that the header of a bitmap in a file may have. -/
def headerLengths : List Nat := [40, 52, 56, maskedHeaderLength, 124]

/-- The greatest width and the greatest height that are read. -/
def sideLimit : Int := 0xFFFF

/-- Whether the header of a bitmap has one of the lengths, tells of one plane, and gives a width and
a height in their limits. -/
def isSound (dib : Bytes) : Bool :=
  let width := Bitmap.signed (Endian.littleAt dib 4 4)
  let height := Bitmap.signed (Endian.littleAt dib 8 4)
  headerLengths.contains (Endian.littleAt dib 0 4) && Endian.littleAt dib 12 2 = 1
    && 0 ≤ width && width ≤ sideLimit && -(Int.pow 2 31) < height && height ≤ sideLimit

/-- Whether the pixels of a bitmap are stored as they are. -/
def isUnmasked (dib : Bytes) : Bool := Endian.littleAt dib 16 4 = 0

/-- Whether the pixels of a bitmap have the masks that are written. -/
def isMasked (dib : Bytes) : Bool :=
  Endian.littleAt dib 14 2 = 32 && Endian.littleAt dib 16 4 = byMasks
    && Endian.slice dib 40 16 = masks

def withoutAlpha (i : Image) : Image :=
  { i with pixels := i.pixels.map (fun p => { p with alpha := 255 }) }

def decode? (file : Bytes) : Option Image :=
  let dib := file.drop Bitmap.fileHeaderLength
  let offset := Endian.littleAt file 10 4
  if file.take 2 = [0x42, 0x4D] ∧ Bitmap.headerLength ≤ dib.length ∧ isSound dib
      ∧ (isUnmasked dib ∨ isMasked dib) then
    match Bitmap.layout dib with
    | .error _ => none
    | .ok l =>
      let data := (file.drop offset).toArray
      if !l.isCountable || data.size < l.length then none
      else some (if isUnmasked dib then withoutAlpha (l.image data) else l.image data)
  else none

/-- The image of a file, or the error that it is none. -/
def decode (file : Bytes) : Except Error Image :=
  match decode? file with
  | some image => .ok image
  | none => .error (.imageDecode .malformed)

end Clipboard.Bmp
