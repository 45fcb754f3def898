import Clipboard.Image
import Mathlib.Algebra.Group.Nat.Defs

/-!
# Rasters

An image is a raster if it has a pixel for every column and row and none besides (`IsRaster`).
A raster is known by its pixels (`IsRaster.ext`), and the pixels of the raster of a function are the
values of the function (`pixel?_ofFn`), row by row (`pixels_ofFn`).
-/

namespace Clipboard.Image

/-- There is a pixel for every column and row, and none besides. -/
def IsRaster (i : Image) : Prop := i.pixels.length = i.width * i.height

instance (i : Image) : Decidable i.IsRaster := inferInstanceAs (Decidable (_ = _))

/-- The pixel of a column and a row. -/
def pixel? (i : Image) (x y : Nat) : Option Pixel :=
  if x < i.width ∧ y < i.height then i.pixels[y * i.width + x]? else none

/-- The place of a column and row among all pixels. -/
theorem index_lt {x y width height : Nat} (hx : x < width) (hy : y < height) :
    y * width + x < width * height := by
  have hrows : (y + 1) * width ≤ height * width := Nat.mul_le_mul_right width hy
  rw [Nat.add_one_mul] at hrows
  rw [Nat.mul_comm width height]
  omega

theorem index_mod {x y width : Nat} (hx : x < width) : (y * width + x) % width = x := by
  rw [Nat.add_comm, Nat.add_mul_mod_self_right, Nat.mod_eq_of_lt hx]

theorem index_div {x y width : Nat} (hx : x < width) : (y * width + x) / width = y := by
  rw [Nat.add_comm, Nat.add_mul_div_right _ _ (Nat.zero_lt_of_lt hx), Nat.div_eq_of_lt hx,
    Nat.zero_add]

/-! ## The raster of a function -/

section OfFn

variable (width height : Nat) (pixel : (x y : Nat) → Pixel)

theorem isRaster_ofFn : (ofFn width height pixel).IsRaster := by
  simp [IsRaster, ofFn]

variable {width height}

theorem pixel?_ofFn {x y : Nat} (hx : x < width) (hy : y < height) :
    (ofFn width height pixel).pixel? x y = some (pixel x y) := by
  unfold pixel? ofFn
  rw [if_pos ⟨hx, hy⟩, List.getElem?_map, List.getElem?_range (index_lt hx hy), Option.map_some,
    index_mod hx, index_div hx]

/-- The pixels of a further row come behind those of the rows above. -/
theorem pixels_ofFn (width height : Nat) :
    (ofFn width height pixel).pixels
      = (List.range height).flatMap (fun y => (List.range width).map (pixel · y)) := by
  show (List.range (width * height)).map (fun i => pixel (i % width) (i / width)) = _
  induction height with
  | zero => simp
  | succ height ih =>
    have hlast : (List.range width).map
        ((fun i => pixel (i % width) (i / width)) ∘ (width * height + ·))
          = (List.range width).map (pixel · height) := by
      apply List.map_congr_left
      intro x hx
      have hx := List.mem_range.mp hx
      simp only [Function.comp_apply, Nat.mul_comm width height, index_mod hx, index_div hx]
    rw [List.range_succ, List.flatMap_append, ← ih, Nat.mul_add_one, List.range_add,
      List.map_append, List.map_map, hlast, List.flatMap_singleton]

end OfFn

/-- Rasters of one size with the same pixels are the same. -/
theorem IsRaster.ext {i j : Image} (hi : i.IsRaster) (hj : j.IsRaster) (hwidth : i.width = j.width)
    (hheight : i.height = j.height)
    (h : ∀ x < i.width, ∀ y < i.height, i.pixel? x y = j.pixel? x y) : i = j := by
  have hpixels : i.pixels = j.pixels := by
    apply List.ext_getElem?
    intro k
    by_cases hk : k < i.width * i.height
    · have hpos : 0 < i.width := Nat.pos_of_mul_pos_right (Nat.zero_lt_of_lt hk)
      have hx : k % i.width < i.width := Nat.mod_lt k hpos
      have hy : k / i.width < i.height := Nat.div_lt_of_lt_mul hk
      have hsame := h _ hx _ hy
      have hplace : k / i.width * i.width + k % i.width = k := Nat.div_add_mod' k i.width
      unfold pixel? at hsame
      rwa [← hwidth, ← hheight, if_pos ⟨hx, hy⟩, if_pos ⟨hx, hy⟩, hplace] at hsame
    · unfold IsRaster at hi hj
      rw [List.getElem?_eq_none (by omega), List.getElem?_eq_none (by rw [hj, ← hwidth, ← hheight]; omega)]
  cases i
  cases j
  simp_all

/-! ## Raw bytes -/

/-- The image of bytes in the order of the channels, if they can be counted in 64 bits and are there;
what is behind them is dropped. -/
def ofRaw? (width height : Nat) (raw : Bytes) : Option Image :=
  if width * height * 4 < 2 ^ 64 ∧ width * height * 4 ≤ raw.length then
    some { width, height, pixels := pixelsOfRgba (raw.take (width * height * 4)) }
  else none

theorem length_flatMap_toBytes (ps : List Pixel) : (ps.flatMap Pixel.toBytes).length = ps.length * 4 := by
  induction ps with
  | nil => rfl
  | cons p ps ih =>
    rw [List.flatMap_cons, List.length_append, ih, List.length_cons, Pixel.toBytes]
    simp only [List.length_cons, List.length_nil]
    omega

/-- The bytes of a raster are an image, which is the raster. -/
theorem IsRaster.ofRaw?_toBytes {i : Image} (h : i.IsRaster)
    (hcount : i.width * i.height * 4 < 2 ^ 64) : ofRaw? i.width i.height i.toBytes = some i := by
  have hlength : i.toBytes.length = i.width * i.height * 4 := by
    rw [toBytes, length_flatMap_toBytes, h]
  unfold ofRaw?
  rw [if_pos ⟨hcount, Nat.le_of_eq hlength.symm⟩, List.take_of_length_le (Nat.le_of_eq hlength),
    toBytes, pixelsOfRgba_toBytes]

end Clipboard.Image
