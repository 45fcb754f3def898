import Clipboard.Proofs.Image.Bitmap

/-!
# Bitmaps in files

A BMP file is a file header and a bitmap, and the file header says how long the file is and where the
pixels begin (`Wraps`). Both are numbers of 32 bits. `toBmp` checks that the bitmap is long enough for
a header, but not the length that this header gives for itself, so that what it writes is such a file
only if the header ends within the bitmap and the file is not too long (`wraps_fileHeader_iff`). A bitmap
that `parse` reads has a header that does.
-/

namespace Clipboard.Bitmap

/-- The length that the header of a file gives for the file. -/
def statedLength (file : Bytes) : Nat := Endian.littleAt file 2 4

/-- The place that the header of a file gives for the pixels. -/
def statedOffset (file : Bytes) : Nat := Endian.littleAt file 10 4

/-- A file is a file header and a bitmap, and it is as long as it says. The place that it gives for the
pixels is the end of the bitmap's header, and lies within the file. -/
structure Wraps (file dib : Bytes) : Prop where
  signature_eq : file.take 2 = [0x42, 0x4D]
  length_eq : file.length = fileHeaderLength + dib.length
  drop_eq : file.drop fileHeaderLength = dib
  statedLength_eq : statedLength file = file.length
  statedOffset_eq : statedOffset file = fileHeaderLength + headerSize dib
  statedOffset_le : statedOffset file ≤ file.length

/-- The header of the file that a bitmap is wrapped in. -/
def fileHeader (dib : Bytes) : Bytes :=
  [0x42, 0x4D] ++ Endian.little 4 (fileHeaderLength + dib.length) ++ Endian.little 4 0
    ++ Endian.little 4 (fileHeaderLength + headerSize dib)

variable {dib file : Bytes}

theorem length_fileHeader (dib : Bytes) : (fileHeader dib).length = fileHeaderLength := by
  simp [fileHeader, fileHeaderLength]

theorem toBmp_eq_ok_iff :
    toBmp dib = .ok file ↔ headerLength ≤ dib.length ∧ file = fileHeader dib ++ dib := by
  unfold toBmp
  split
  · next hsmall =>
    refine ⟨nofun, fun h => ?_⟩
    omega
  · next hsmall =>
    constructor
    · intro h
      cases h
      exact ⟨Nat.le_of_not_lt hsmall, rfl⟩
    · rintro ⟨-, rfl⟩
      rfl

theorem statedLength_fileHeader (dib : Bytes) :
    statedLength (fileHeader dib ++ dib) = (fileHeaderLength + dib.length) % 2 ^ 32 := by
  have hheader := length_fileHeader dib
  rw [statedLength, Endian.littleAt, Endian.slice_append_left (by rw [hheader]; decide)]
  exact Endian.ofLittle_little_eq_mod 4 _

theorem statedOffset_fileHeader (dib : Bytes) :
    statedOffset (fileHeader dib ++ dib) = (fileHeaderLength + headerSize dib) % 2 ^ 32 := by
  have hheader := length_fileHeader dib
  rw [statedOffset, Endian.littleAt, Endian.slice_append_left (by rw [hheader]; decide)]
  exact Endian.ofLittle_little_eq_mod 4 _

/-- A file that is not too long wraps a bitmap just if the bitmap's header ends within it. -/
theorem wraps_fileHeader_iff (dib : Bytes) :
    Wraps (fileHeader dib ++ dib) dib ↔
      headerSize dib ≤ dib.length ∧ fileHeaderLength + dib.length < 2 ^ 32 := by
  have hheader := length_fileHeader dib
  have hlength : (fileHeader dib ++ dib).length = fileHeaderLength + dib.length := by
    rw [List.length_append, hheader]
  constructor
  · intro h
    have hend := h.statedOffset_le
    have hfits := h.statedLength_eq
    rw [statedLength_fileHeader, hlength] at hfits
    rw [h.statedOffset_eq, hlength] at hend
    exact ⟨Nat.le_of_add_le_add_left hend, (Nat.mod_eq_iff_lt (by decide)).mp hfits⟩
  · rintro ⟨hsize, hfits⟩
    have hoffset : statedOffset (fileHeader dib ++ dib) = fileHeaderLength + headerSize dib := by
      rw [statedOffset_fileHeader]
      exact Nat.mod_eq_of_lt (by omega)
    refine ⟨rfl, hlength, by rw [← hheader, List.drop_left], ?_, hoffset, by omega⟩
    rw [statedLength_fileHeader, hlength]
    exact Nat.mod_eq_of_lt hfits

/-- **What a bitmap is wrapped in.** Every bitmap with room for a header is written as a file, which is
a file header and the bitmap. The length and the place of the pixels that the file gives are reduced to
32 bits. They are the length of the file and the end of the bitmap's header, within the file, exactly
if that header ends within the bitmap and the length fits; so they are for every bitmap that can be
read, if the length fits. -/
theorem toBmp_wraps (dib : Bytes) :
    ((∃ file, toBmp dib = .ok file) ↔ headerLength ≤ dib.length) ∧
      ∀ file, toBmp dib = .ok file →
        file.length = fileHeaderLength + dib.length ∧ file.drop fileHeaderLength = dib ∧
          statedLength file = file.length % 2 ^ 32 ∧
          statedOffset file = (fileHeaderLength + headerSize dib) % 2 ^ 32 ∧
          (Wraps file dib ↔ headerSize dib ≤ dib.length ∧ file.length < 2 ^ 32) ∧
          ∀ image, parse dib = .ok image → file.length < 2 ^ 32 → Wraps file dib := by
  have hheader := length_fileHeader dib
  have hlength : (fileHeader dib ++ dib).length = fileHeaderLength + dib.length := by
    rw [List.length_append, hheader]
  constructor
  · constructor
    · rintro ⟨file, h⟩
      exact (toBmp_eq_ok_iff.mp h).1
    · intro h
      exact ⟨_, toBmp_eq_ok_iff.mpr ⟨h, rfl⟩⟩
  · intro file h
    obtain ⟨-, rfl⟩ := toBmp_eq_ok_iff.mp h
    rw [hlength]
    refine ⟨rfl, by rw [← hheader, List.drop_left], statedLength_fileHeader dib,
      statedOffset_fileHeader dib, wraps_fileHeader_iff dib, ?_⟩
    intro image hparse hfits
    have hlimit : dib.length < 2 ^ 63 := by omega
    exact (wraps_fileHeader_iff dib).mpr ⟨((parse_eq_ok_iff hlimit).mp hparse).1.headerSize_le, hfits⟩

theorem toBmp_wraps_bottom_up :
    ∃ file, toBmp blueBelowGreen = .ok file ∧ file.length = 62 ∧ statedOffset file = 54 ∧
      Wraps file blueBelowGreen := by
  obtain ⟨hwritten, hfile⟩ := toBmp_wraps blueBelowGreen
  obtain ⟨file, h⟩ := hwritten.mpr (by decide)
  obtain ⟨hlength, -, -, -, hwraps, -⟩ := hfile file h
  have hwraps : Wraps file blueBelowGreen := hwraps.mpr ⟨by decide, by rw [hlength]; decide⟩
  refine ⟨file, h, hlength, ?_, hwraps⟩
  rw [hwraps.statedOffset_eq]
  decide

/-- A header of 40 bytes and four bytes behind it, which says that it has 45. -/
def shortByOne : Bytes :=
  Endian.little 4 45 ++ Endian.little 4 1 ++ Endian.little 4 1 ++ [1, 0, 32, 0]
    ++ List.replicate 24 0 ++ [0x07, 0x24, 0x41, 0x5E]

/-- It is not read, and yet it is wrapped: the pixels begin behind the end of the file. -/
theorem toBmp_not_wraps :
    parse shortByOne = .error (.invalidData .bitmapHeader) ∧
      ∃ file, toBmp shortByOne = .ok file ∧ file.length = 58 ∧ statedOffset file = 59 ∧
        ¬Wraps file shortByOne := by
  refine ⟨rfl, fileHeader shortByOne ++ shortByOne, rfl, by decide, by decide, ?_⟩
  rw [wraps_fileHeader_iff]
  decide

end Clipboard.Bitmap
