import Clipboard.Endian
import Clipboard.Error
import Clipboard.Image
import Clipboard.Image.Checksum

/-!
# PNG files

A PNG file is a signature and chunks; a chunk is a length, a type of four letters, data and a
checksum. The data of the `IDAT` chunks together is a compressed stream of the rows, each behind the
number of a filter.

Images are written with eight bits for each of four channels, in stored blocks and without a filter;
the files that are read are those written in this way. A file is read up to the first chunk behind
the image data: its length and its type must be there, and nothing behind them counts.
-/

namespace Clipboard.Png

def signature : Bytes := [0x89, 0x50, 0x4E, 0x47, 0x0D, 0x0A, 0x1A, 0x0A]

structure Chunk where
  type : Bytes
  data : Bytes
  deriving DecidableEq, Repr

def ihdr : Bytes := [0x49, 0x48, 0x44, 0x52]

def plte : Bytes := [0x50, 0x4C, 0x54, 0x45]

def idat : Bytes := [0x49, 0x44, 0x41, 0x54]

def iend : Bytes := [0x49, 0x45, 0x4E, 0x44]

/-- Eight bits for each of red, green, blue and alpha, and no interlacing. -/
def format : Bytes := [8, 6, 0, 0, 0]

/-! ## Writing -/

def Chunk.toBytes (c : Chunk) : Bytes :=
  Endian.big 4 c.data.length ++ c.type ++ c.data ++ Endian.big 4 (Checksum.crc32 (c.type ++ c.data))

/-- Stored blocks of at most 65535 bytes, at least one. -/
def storedBlocks (bytes : Bytes) : Bytes :=
  let block := bytes.take 65535
  let rest := bytes.drop 65535
  let length := Endian.little 2 block.length ++ Endian.little 2 (65535 - block.length)
  if _h : rest = [] then 1 :: length ++ block
  else 0 :: length ++ block ++ storedBlocks rest
termination_by bytes.length
decreasing_by
  have hr : bytes.drop 65535 ≠ [] := _h
  have := List.length_pos_iff.mpr hr
  simp only [List.length_drop] at this ⊢
  omega

/-- A compressed stream that stores the bytes as they are. -/
def deflate (bytes : Bytes) : Bytes :=
  [0x78, 0x01] ++ storedBlocks bytes ++ Endian.big 4 (Checksum.adler32 bytes)

/-- Rows of `n + 1` bytes, each behind the number of the filter that changes nothing. -/
def rows (n : Nat) (bytes : Bytes) : Bytes :=
  match bytes with
  | [] => []
  | b :: bs => 0 :: b :: bs.take n ++ rows n (bs.drop n)
termination_by bytes.length
decreasing_by simp only [List.length_drop, List.length_cons]; omega

/-- The file of an image; one without pixels has none. -/
def encode (i : Image) : Except Error Bytes :=
  if i.width = 0 ∨ i.height = 0 then .error (.imageEncode .malformed)
  else
    let header := Endian.big 4 i.width ++ Endian.big 4 i.height ++ format
    let data := deflate (rows (4 * i.width - 1) i.toBytes)
    .ok
      (signature ++ Chunk.toBytes ⟨ihdr, header⟩ ++ Chunk.toBytes ⟨idat, data⟩
        ++ Chunk.toBytes ⟨iend, []⟩)

/-! ## Reading -/

/-- The bytes of stored blocks, up to the last one; a checksum follows it, which need not be right.
The first byte of a block tells in its lowest bit whether the block is the last, and in the next two
that it is stored; the other bits do not count. -/
def inflateStored (bytes : Bytes) : Option Bytes :=
  match bytes with
  | mark :: a :: b :: c :: d :: rest =>
    let length := Endian.ofLittle [a, b]
    if mark.toNat / 2 % 4 ≠ 0 ∨ Endian.ofLittle [c, d] ≠ 65535 - length ∨ rest.length < length then
      none
    else if mark.toNat % 2 = 1 then
      if rest.length < length + 4 then none else some (rest.take length)
    else (inflateStored (rest.drop length)).map (rest.take length ++ ·)
  | _ => none
termination_by bytes.length
decreasing_by simp only [List.length_drop, List.length_cons]; omega

def inflate (bytes : Bytes) : Option Bytes :=
  match bytes with
  | a :: b :: rest =>
    if a.toNat % 16 = 8 ∧ a.toNat / 16 ≤ 7 ∧ (a.toNat * 256 + b.toNat) % 31 = 0
        ∧ b.toNat / 32 % 2 = 0 then
      inflateStored rest
    else none
  | _ => none

/-! ### Chunks at the beginning of bytes -/

def typeAt (bytes : Bytes) : Bytes := Endian.slice bytes 4 4

/-- The length of the data of the chunk. -/
def dataLength (bytes : Bytes) : Nat := Endian.bigAt bytes 0 4

def dataAt (bytes : Bytes) : Bytes := Endian.slice bytes 8 (dataLength bytes)

/-- Whether the length and the type of the chunk are there. -/
def isBegun (bytes : Bytes) : Bool := 8 ≤ bytes.length

/-- Whether all of the chunk is there. -/
def isWhole (bytes : Bytes) : Bool := dataLength bytes + 12 ≤ bytes.length

/-- Whether the checksum of the chunk is right. -/
def isSound (bytes : Bytes) : Bool :=
  Endian.bigAt bytes (dataLength bytes + 8) 4 = Checksum.crc32 (typeAt bytes ++ dataAt bytes)

/-- Whether the image cannot be known without the chunk: its type begins with a capital. -/
def isCritical (bytes : Bytes) : Bool := (typeAt bytes).head?.all (fun b => b.toNat / 32 % 2 = 0)

def behind (bytes : Bytes) : Bytes := bytes.drop (dataLength bytes + 12)

theorem length_behind_lt {bytes : Bytes} (h : isBegun bytes = true) :
    (behind bytes).length < bytes.length := by
  simp only [isBegun, decide_eq_true_eq] at h
  simp only [behind, List.length_drop]
  omega

/-! ### Files -/

/-- The data of the image chunks that stand at the beginning one behind the other; another chunk
must begin behind them. -/
def imageData (bytes : Bytes) : Option Bytes :=
  if _h : isBegun bytes = true then
    if typeAt bytes ≠ idat then some []
    else if isWhole bytes && isSound bytes then
      (imageData (behind bytes)).map (dataAt bytes ++ ·)
    else none
  else none
termination_by bytes.length
decreasing_by exact length_behind_lt _h

/-- The bytes from the first image chunk on. Of the chunks before it, those that are not critical do
not count, and a palette is of no use to an image whose pixels are colors. -/
def fromImageData (bytes : Bytes) : Option Bytes :=
  if _h : isBegun bytes = true then
    if typeAt bytes = idat then some bytes
    else if isWhole bytes && (!isCritical bytes || typeAt bytes = plte && isSound bytes) then
      fromImageData (behind bytes)
    else none
  else none
termination_by bytes.length
decreasing_by exact length_behind_lt _h

/-- The bytes of rows of `n` bytes behind the number of the filter that changes nothing. -/
def unfiltered (n : Nat) (bytes : Bytes) : Option Bytes :=
  match bytes with
  | [] => some []
  | f :: rest =>
    if f ≠ 0 ∨ rest.length < n then none
    else (unfiltered n (rest.drop n)).map (rest.take n ++ ·)
termination_by bytes.length
decreasing_by simp only [List.length_drop, List.length_cons]; omega

def ofStream? (width height : Nat) (stream : Bytes) : Option Image := do
  let data ← inflate stream
  let rows := data.take ((4 * width + 1) * height)
  if rows.length < (4 * width + 1) * height then none
  else
    let bytes ← unfiltered (4 * width) rows
    return { width, height, pixels := Image.pixelsOfRgba bytes }

/-- The image of what follows the signature; the first chunk is the header. -/
def ofChunks? (bytes : Bytes) : Option Image :=
  let header := dataAt bytes
  let width := Endian.bigAt header 0 4
  let height := Endian.bigAt header 4 4
  if isWhole bytes ∧ isSound bytes ∧ typeAt bytes = ihdr ∧ header.drop 8 = format
      ∧ 0 < width ∧ 0 < height then
    ((fromImageData (behind bytes)).bind imageData).bind (ofStream? width height)
  else none

def decode (bytes : Bytes) : Except Error Image :=
  match (if bytes.take 8 = signature then ofChunks? (bytes.drop 8) else none) with
  | some image => .ok image
  | none => .error (.imageDecode .malformed)

end Clipboard.Png
