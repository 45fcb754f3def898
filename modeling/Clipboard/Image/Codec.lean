import Clipboard.Image.Bmp
import Clipboard.Image.Gif
import Clipboard.Image.Jpeg
import Clipboard.Image.Png

/-!
# Image encodings

The name of a native image format tells how its bytes are encoded. An `ImageCodec` turns images into
the bytes of a format and back; `ImageCodec.standard` goes by the name. It reads bitmaps, BMP and
PNG files.
-/

namespace Clipboard

/-- How the bytes of an image format are encoded. -/
inductive ImageEncoding where
  | dib
  | bmp
  | png
  | jpeg
  | gif
  deriving DecidableEq, Repr

namespace ImageEncoding

/-- The encoding that a lower-case name stands for. -/
def ofLabel? (label : String) : Option ImageEncoding :=
  match label with
  | "cf_dib" | "cf_dibv5" | "dib" => some .dib
  | "bmp" | "image/bmp" | "image/x-bmp" => some .bmp
  | "png" | "image/png" => some .png
  | "jfif" | "jpeg" | "image/jpeg" | "image/jpg" => some .jpeg
  | "gif" | "image/gif" => some .gif
  | _ => none

/-- The encoding that the name of a format stands for; parameters do not matter. -/
def ofName? (name : String) : Option ImageEncoding :=
  ofLabel? (String.ofList (Text.lower (Text.trim (Text.before ';' name.toList))))

def name : ImageEncoding → String
  | .dib => "Dib"
  | .bmp => "Bmp"
  | .png => "Png"
  | .jpeg => "Jpeg"
  | .gif => "Gif"

def encode (encoding : ImageEncoding) (image : Image) : Except Error Bytes :=
  match encoding with
  | .dib => Bitmap.create image
  | .bmp => Bmp.encode image
  | .png => Png.encode image
  | .jpeg => Jpeg.encode image
  | .gif => Gif.encode image

def decode (encoding : ImageEncoding) (bytes : Bytes) : Except Error Image :=
  match encoding with
  | .dib => Bitmap.parse bytes
  | .bmp => Bmp.decode bytes
  | .png => Png.decode bytes
  | .jpeg | .gif => .error (.imageDecode .malformed)

/-- The width and the height that encoded bytes give for the image. -/
def size? (encoding : ImageEncoding) (bytes : Bytes) : Option (Nat × Nat) :=
  match encoding with
  | .jpeg => Jpeg.size? bytes
  | .gif => Gif.size? bytes
  | encoding =>
    match encoding.decode bytes with
    | .ok image => some (image.width, image.height)
    | .error _ => none

end ImageEncoding

/-- Turns images into the bytes of native formats and back. -/
structure ImageCodec where
  /-- The bytes of an image in a format. -/
  encode : Image → NativeFormat → Except Error Bytes
  decode : Bytes → NativeFormat → Except Error Image

/-- The codec that goes by the name of the format. -/
def ImageCodec.standard : ImageCodec where
  encode image native :=
    match ImageEncoding.ofName? native.name with
    | some encoding => encoding.encode image
    | none => .error (.imageEncode (.noEncoding native.name))
  decode bytes native :=
    match ImageEncoding.ofName? native.name with
    | some encoding => encoding.decode bytes
    | none => .error (.imageDecode (.noEncoding native.name))

end Clipboard
