import Clipboard.Text.Hex

/-!
# Checksums

The two checksums in a PNG file: the cyclic redundancy check of its chunks, and the pair of sums at
the end of its compressed data.
-/

namespace Clipboard.Checksum

/-- One bit of a remainder shifted out. -/
def crcStep (r : UInt32) : UInt32 :=
  if r &&& 1 = 1 then (0xEDB88320 : UInt32) ^^^ (r >>> 1) else r >>> 1

/-- A remainder after one more byte. -/
def crcByte (r : UInt32) (b : UInt8) : UInt32 :=
  crcStep (crcStep (crcStep (crcStep (crcStep (crcStep (crcStep (crcStep (r ^^^ b.toUInt32))))))))

def crc32 (bytes : Bytes) : Nat := (bytes.foldl crcByte 0xFFFFFFFF ^^^ 0xFFFFFFFF).toNat

/-- The sum of the bytes, and the sum of the sums after each byte, modulo 65521. -/
def adler32 (bytes : Bytes) : Nat :=
  let (a, b) := bytes.foldl
    (fun (a, b) x => ((a + x.toNat) % 65521, (b + a + x.toNat) % 65521)) (1, 0)
  b * 65536 + a

end Clipboard.Checksum
