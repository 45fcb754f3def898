import Clipboard.Text.Hex

/-!
# Images

An image is a raster of pixels, row by row from the top, each with a red, a green, a blue and an
alpha channel of eight bits.
-/

namespace Clipboard

/-- A point of an image. -/
structure Pixel where
  red : UInt8
  green : UInt8
  blue : UInt8
  alpha : UInt8
  deriving DecidableEq, Repr

/-- A raster of pixels. -/
structure Image where
  /-- The number of pixels in a row. -/
  width : Nat
  height : Nat
  pixels : List Pixel
  deriving DecidableEq, Repr

namespace Pixel

def toBytes (p : Pixel) : Bytes := [p.red, p.green, p.blue, p.alpha]

def grey (level : UInt8) : Pixel := ⟨level, level, level, 255⟩

end Pixel

namespace Image

/-- The image with a pixel for every column and row. -/
def ofFn (width height : Nat) (pixel : (x y : Nat) → Pixel) : Image :=
  { width, height
    pixels := (List.range (width * height)).map (fun i => pixel (i % width) (i / width)) }

def toBytes (i : Image) : Bytes := i.pixels.flatMap Pixel.toBytes

def pixelsOfRgba : Bytes → List Pixel
  | r :: g :: b :: a :: rest => ⟨r, g, b, a⟩ :: pixelsOfRgba rest
  | _ => []

def pixelsOfRgb : Bytes → List Pixel
  | r :: g :: b :: rest => ⟨r, g, b, 255⟩ :: pixelsOfRgb rest
  | _ => []

theorem pixelsOfRgba_toBytes (ps : List Pixel) : pixelsOfRgba (ps.flatMap Pixel.toBytes) = ps := by
  induction ps with
  | nil => rfl
  | cons p ps ih => simp [Pixel.toBytes, pixelsOfRgba, ih]

end Image

end Clipboard
