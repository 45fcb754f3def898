import Clipboard.Proofs.Image.Bitmap

/-!
# Bitmaps there and back

An image fits a bitmap if its sides fit 31 bits and the bytes of its pixels 32 (`Fits`). The header
that is written for such an image says its sizes as they are (`states_header`), the pixels that are
written are the ones that the bytes show (`shows_written`), and so the image is read back.
-/

namespace Clipboard.Bitmap

/-- The sides of the image fit a signed number of 32 bits, and the bytes of its pixels an unsigned
one. -/
def Fits (i : Image) : Prop :=
  i.width < 2 ^ 31 ∧ i.height < 2 ^ 31 ∧ 4 * i.width * i.height < 2 ^ 32

instance (i : Image) : Decidable (Fits i) := inferInstanceAs (Decidable (_ ∧ _))

/-- The header says the sizes of an image, its pixels stored in 32 bits from the top to the bottom. -/
structure States (dib : Bytes) (i : Image) : Prop where
  headerSize_eq : headerSize dib = headerLength
  width_eq : signed (Endian.littleAt dib 4 4) = i.width
  signedHeight_eq : signedHeight dib = -i.height
  planes_eq : Endian.littleAt dib 12 2 = 1
  depth_eq : depth dib = 32
  compression_eq : Endian.littleAt dib 16 4 = 0
  imageSize_eq : Endian.littleAt dib 20 4 = 4 * i.width * i.height
  length_eq : dib.length = headerLength + 4 * i.width * i.height

/-! ## The header -/

/-- A height is written as a negative number. -/
theorem signed_ofLittle_neg {height : Nat} (h : height < 2 ^ 31) :
    signed (Endian.ofLittle (Endian.little 4 (2 ^ 32 - height))) = -height := by
  have hbytes : Nat.pow 256 4 = 2 ^ 32 := by decide
  by_cases hzero : height = 0
  · rw [hzero]
    decide
  · rw [Endian.ofLittle_little 4 _ (by omega), signed_of_le (by omega)]
    omega

theorem length_flatMap_pixelBytes (ps : List Pixel) :
    (ps.flatMap pixelBytes).length = 4 * ps.length := by
  induction ps with
  | nil => rfl
  | cons p ps ih =>
    rw [List.flatMap_cons, List.length_append, ih, List.length_cons]
    simp only [pixelBytes, List.length_cons, List.length_nil]
    omega

/-- The header that is written says the sizes as they are. -/
theorem states_header {i : Image} (hraster : i.IsRaster) (h : Fits i) :
    States (header i.width i.height ++ i.pixels.flatMap pixelBytes) i := by
  obtain ⟨hwidth, hheight, hsize⟩ := h
  have hlimit : 2 ^ 32 = Nat.pow 256 4 := by decide
  have harea : i.width * i.height * 4 = 4 * i.width * i.height := by
    rw [Nat.mul_comm, Nat.mul_assoc]
  refine ⟨rfl, ?_, signed_ofLittle_neg hheight, rfl, rfl, rfl, ?_, ?_⟩
  · show signed (Endian.ofLittle (Endian.little 4 i.width)) = i.width
    rw [Endian.ofLittle_little 4 _ (by omega), signed_of_lt hwidth]
  · show Endian.ofLittle (Endian.little 4 (i.width * i.height * 4)) = 4 * i.width * i.height
    rw [harea, Endian.ofLittle_little 4 _ (by omega)]
  · rw [List.length_append, length_flatMap_pixelBytes, hraster, ← Nat.mul_assoc]
    rfl

/-! ## The pixels -/

/-- The bytes of a pixel are where as many pixels are before it. -/
theorem getElem?_flatMap_pixelBytes {ps : List Pixel} {k : Nat} {p : Pixel} (h : ps[k]? = some p)
    {j : Nat} (hj : j < 4) : (ps.flatMap pixelBytes)[k * 4 + j]? = (pixelBytes p)[j]? := by
  induction ps generalizing k with
  | nil => cases h
  | cons q ps ih =>
    rw [List.flatMap_cons]
    cases k with
    | zero =>
      cases h
      rw [Nat.zero_mul, Nat.zero_add, List.getElem?_append_left hj]
    | succ k =>
      have hlength : (pixelBytes q).length = 4 := rfl
      have hplace : (k + 1) * 4 + j - 4 = k * 4 + j := by omega
      rw [List.getElem?_append_right (by omega), hlength, hplace]
      exact ih h

theorem shows_pixelBytes {dib : Bytes} {offset : Nat} {p : Pixel}
    (h : ∀ j < 4, dib[offset + j]? = (pixelBytes p)[j]?) : Shows dib 32 offset p := by
  refine ⟨h 0 (by decide), h 1 (by decide), h 2 (by decide), ?_⟩
  rw [if_pos rfl]
  exact h 3 (by decide)

/-- Bytes show one pixel only. -/
theorem Shows.unique {dib : Bytes} {bits offset : Nat} {p q : Pixel} (hp : Shows dib bits offset p)
    (hq : Shows dib bits offset q) : p = q := by
  obtain ⟨hblue, hgreen, hred, halpha⟩ := hp
  obtain ⟨hblue', hgreen', hred', halpha'⟩ := hq
  have halphas : p.alpha = q.alpha := by
    split at halpha
    · next hbits =>
      rw [if_pos hbits, halpha] at halpha'
      exact Option.some.inj halpha'
    · next hbits =>
      rw [if_neg hbits] at halpha'
      rw [halpha, halpha']
  rw [hblue] at hblue'
  rw [hgreen] at hgreen'
  rw [hred] at hred'
  cases p
  cases q
  simp_all

/-- The pixel that was written is the one that the bytes show. -/
theorem shows_written {i : Image} {x y : Nat} (hx : x < i.width) (hy : y < i.height) {p : Pixel}
    (hp : i.pixel? x y = some p) :
    Shows (header i.width i.height ++ i.pixels.flatMap pixelBytes) 32
      (headerLength + (y * i.width + x) * 4) p := by
  apply shows_pixelBytes
  intro j hj
  have hlength : (header i.width i.height).length = headerLength := rfl
  unfold Image.pixel? at hp
  rw [if_pos ⟨hx, hy⟩] at hp
  rw [List.getElem?_append_right (by omega), hlength, Nat.add_assoc, Nat.add_sub_cancel_left]
  exact getElem?_flatMap_pixelBytes hp hj

namespace States

variable {dib : Bytes} {i : Image}

theorem columns_eq (h : States dib i) : columns dib = i.width := by
  unfold columns
  rw [h.width_eq]
  rfl

theorem rows_eq (h : States dib i) : (signedHeight dib).natAbs = i.height := by
  rw [h.signedHeight_eq, Int.natAbs_neg]
  rfl

/-- Rows of 32 bits for a pixel need no filling up. -/
theorem stride_eq (h : States dib i) : stride dib = i.width * 4 := by
  unfold stride
  rw [h.columns_eq, h.depth_eq]
  omega

theorem isSound (h : States dib i) : IsSound dib := by
  have hlength := h.length_eq
  have hsize := h.headerSize_eq
  have hrows : (signedHeight dib).natAbs * stride dib = dib.length - headerSize dib := by
    rw [h.rows_eq, h.stride_eq, hsize, hlength, Nat.add_sub_cancel_left, Nat.mul_comm i.height,
      Nat.mul_comm i.width]
  exact ⟨by omega, by omega, by omega, Or.inr h.depth_eq, Nat.le_of_eq hrows⟩

theorem pixelOffset_eq (h : States dib i) (x y : Nat) :
    pixelOffset dib x y = headerLength + (y * i.width + x) * 4 := by
  have hrow : storedRow dib y = y := by
    unfold storedRow
    rw [h.signedHeight_eq, if_neg (by omega)]
  unfold pixelOffset
  rw [hrow, h.headerSize_eq, h.stride_eq, h.depth_eq, Nat.add_mul, Nat.add_assoc, Nat.mul_assoc]

/-- The bytes of an image are read as it if they show its pixels. -/
theorem parse_eq (h : States dib i) (hlimit : dib.length < 2 ^ 63) (hraster : i.IsRaster)
    (hshows : ∀ x < i.width, ∀ y < i.height, ∀ p, i.pixel? x y = some p →
      Shows dib 32 (headerLength + (y * i.width + x) * 4) p) : parse dib = .ok i := by
  have hread := (parse_eq_ok_iff hlimit).mpr ⟨h.isSound, rfl⟩
  rw [hread]
  refine congrArg Except.ok (Image.IsRaster.ext (Image.isRaster_ofFn _ _ _) hraster h.columns_eq
    h.rows_eq ?_)
  intro x hx y hy
  have hx' : x < i.width := by rwa [← h.columns_eq]
  have hy' : y < i.height := by rwa [← h.rows_eq]
  have hmem : y * i.width + x < i.pixels.length := by
    rw [hraster]
    exact Image.index_lt hx' hy'
  have hpixel : i.pixel? x y = some i.pixels[y * i.width + x] := by
    unfold Image.pixel?
    rw [if_pos ⟨hx', hy'⟩, List.getElem?_eq_getElem hmem]
  have hstored := shows_pixel h.isSound hx hy
  rw [h.pixelOffset_eq, h.depth_eq] at hstored
  rw [hpixel, ← hstored.unique (hshows x hx' y hy' _ hpixel)]
  exact Image.pixel?_ofFn _ hx hy

end States

/-! ## There and back -/

theorem create_eq (i : Image) :
    create i = if Fits i then .ok (header i.width i.height ++ i.pixels.flatMap pixelBytes)
      else .error (.invalidData .bitmapTooLarge) := by
  have harea : i.width * i.height * 4 = 4 * i.width * i.height := by
    rw [Nat.mul_comm, Nat.mul_assoc]
  have hfits : (i.width * i.height * 4 < 2 ^ 32 ∧ i.width < 2 ^ 31 ∧
      i.height < 2 ^ 31) ↔ Fits i := by
    unfold Fits
    rw [harea]
    constructor
    · rintro ⟨hsize, hwidth, hheight⟩
      exact ⟨hwidth, hheight, hsize⟩
    · rintro ⟨hwidth, hheight, hsize⟩
      exact ⟨hsize, hwidth, hheight⟩
  unfold create
  split
  · next h => rw [if_pos (hfits.mp h)]
  · next h => rw [if_neg (fun hfit => h (hfits.mpr hfit))]

/-- **An image is read back as it was written.** If it fits a bitmap, one is made whose header says
its sizes as they are, and reading the bitmap gives the image; if it does not, there is an error and
no bitmap. -/
theorem parse_create {i : Image} (hraster : i.IsRaster) :
    (Fits i → ∃ dib, create i = .ok dib ∧ States dib i ∧ parse dib = .ok i) ∧
      (¬Fits i → create i = .error (.invalidData .bitmapTooLarge)) := by
  constructor
  · intro hfits
    have hstates := states_header hraster hfits
    have hheader : headerLength = 40 := rfl
    have hsize := hfits.2.2
    refine ⟨_, by rw [create_eq, if_pos hfits], hstates, hstates.parse_eq ?_ hraster ?_⟩
    · rw [hstates.length_eq]
      omega
    · intro x hx y hy p hp
      exact shows_written hx hy hp
  · intro hfits
    rw [create_eq, if_neg hfits]

/-- One row of a translucent and an opaque pixel. -/
def twoPixels : Image := { width := 2, height := 1, pixels := [⟨1, 2, 3, 4⟩, ⟨250, 251, 252, 255⟩] }

theorem parse_create_two_pixels :
    twoPixels.IsRaster ∧ Fits twoPixels ∧
      ∃ dib, create twoPixels = .ok dib ∧ States dib twoPixels ∧ parse dib = .ok twoPixels := by
  have hraster : twoPixels.IsRaster := by decide
  have hfits : Fits twoPixels := by decide
  exact ⟨hraster, hfits, (parse_create hraster).1 hfits⟩

end Clipboard.Bitmap
