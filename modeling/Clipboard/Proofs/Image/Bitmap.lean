import Clipboard.Image.Bitmap
import Clipboard.Proofs.Files.DropFiles
import Clipboard.Proofs.Image
import Clipboard.Proofs.Steps
import Mathlib.Algebra.Group.Int.Defs

/-!
# Bitmaps read

What the header of a bitmap says are its fields (`headerSize`, `columns`, `signedHeight`, `depth`),
and what stands at a place behind it is a pixel (`Shows`). An image is read exactly where the header
is sound and enough bytes are behind it (`exists_parse_iff`), and its pixels are those that the bytes
show (`shows_of_parse`).

`parse` counts in natural numbers and takes what it needs from the bytes. `parseAt?` goes by position
and in words of 64 bits instead, and gives nothing if it looks where there is no byte or if a number
that it does not check is no word; `parseAt?_eq` says that it does neither. The room that an image
takes is not counted.
-/

namespace Clipboard.Bitmap

open DropFiles (slice? slice?_eq slice?_length littleAt? littleAt?_eq)

/-! ## Sizes -/

theorem signed_of_lt {n : Nat} (h : n < 2 ^ 31) : signed n = n := if_pos h

theorem signed_of_le {n : Nat} (h : 2 ^ 31 ≤ n) : signed n = (n : Int) - 2 ^ 32 :=
  if_neg (Nat.not_lt.mpr h)

/-- The magnitude of a signed number of 32 bits. -/
theorem natAbs_signed_le {n : Nat} (h : n < 2 ^ 32) : (signed n).natAbs ≤ 2 ^ 31 := by
  rcases Nat.lt_or_ge n (2 ^ 31) with hsmall | hlarge
  · rw [signed_of_lt hsmall]
    omega
  · rw [signed_of_le hlarge]
    omega

theorem ofLittle_lt (bs : Bytes) : Endian.ofLittle bs < 256 ^ bs.length := by
  induction bs with
  | nil => decide
  | cons b bs ih =>
    have hb := b.toNat_lt
    rw [Endian.ofLittle, List.length_cons, Nat.pow_succ']
    omega

/-- A field of four bytes is a number of 32 bits. -/
theorem littleAt_lt (bs : Bytes) (offset : Nat) : Endian.littleAt bs offset 4 < 2 ^ 32 := by
  have hlength : (Endian.slice bs offset 4).length ≤ 4 := by
    rw [Endian.slice]
    exact List.length_take_le 4 _
  have hpow : 256 ^ (Endian.slice bs offset 4).length ≤ 256 ^ 4 :=
    Nat.pow_le_pow_right (by decide) hlength
  exact Nat.lt_of_lt_of_le (ofLittle_lt _) (Nat.le_trans hpow (by decide))

/-- The layout is one of a bitmap: three or four bytes for a pixel, and a width of 32 bits. -/
structure Layout.Sound (l : Layout) : Prop where
  width_le : l.width ≤ 2 ^ 31
  bytesPerPixel : l.bytesPerPixel = 3 ∨ l.bytesPerPixel = 4

namespace Layout

variable {l : Layout}

/-- The row of the bytes that holds a row of the image. -/
def storedRow (l : Layout) (y : Nat) : Nat := if l.bottomUp then l.height - 1 - y else y

theorem storedRow_lt {y : Nat} (hy : y < l.height) : l.storedRow y < l.height := by
  unfold storedRow
  split <;> omega

theorem width_mul_le_rowLength (l : Layout) : l.width * l.bytesPerPixel ≤ l.rowLength := by
  unfold rowLength
  omega

/-- A row ends where all rows do or before. -/
theorem row_end_le {row : Nat} (hrow : row < l.height) :
    row * l.rowLength + l.width * l.bytesPerPixel ≤ l.length := by
  have hrows : (row + 1) * l.rowLength ≤ l.height * l.rowLength := Nat.mul_le_mul_right _ hrow
  have hpadded := l.width_mul_le_rowLength
  rw [Nat.add_one_mul] at hrows
  rw [length, Nat.mul_comm l.rowLength]
  omega

/-- A pixel ends where its row does or before. -/
theorem pixel_end_le {x : Nat} (hx : x < l.width) :
    x * l.bytesPerPixel + l.bytesPerPixel ≤ l.width * l.bytesPerPixel := by
  have hpixels : (x + 1) * l.bytesPerPixel ≤ l.width * l.bytesPerPixel := Nat.mul_le_mul_right _ hx
  rwa [Nat.add_one_mul] at hpixels

theorem Sound.area_le (h : l.Sound) : l.width * l.height * 3 ≤ l.length := by
  have hwidth : l.width * 3 ≤ l.width * l.bytesPerPixel := by
    apply Nat.mul_le_mul_left
    rcases h.bytesPerPixel with hbytes | hbytes <;> omega
  have hrow := Nat.le_trans hwidth l.width_mul_le_rowLength
  have hrows := Nat.mul_le_mul_right l.height hrow
  rw [length]
  calc l.width * l.height * 3 = l.width * 3 * l.height := Nat.mul_right_comm _ _ _
    _ ≤ l.rowLength * l.height := hrows

theorem isCountable_iff :
    l.isCountable = true ↔ l.length < 2 ^ 64 ∧ l.width * l.height * 4 < 2 ^ 64 := by
  unfold isCountable
  rw [Bool.and_eq_true, decide_eq_true_eq, decide_eq_true_eq]
  exact Iff.rfl

/-- Rows that are there can be counted, and so can the bytes of their pixels. -/
theorem Sound.isCountable (h : l.Sound) {data : Bytes} (hrows : l.length ≤ data.length)
    (hdata : data.length < 2 ^ 63) : l.isCountable = true := by
  have harea := h.area_le
  rw [isCountable_iff]
  omega

end Layout

theorem sound_of_layout {dib : Bytes} {l : Layout} (h : layout dib = .ok l) : l.Sound := by
  unfold layout at h
  simp only at h
  split at h
  · next hbits =>
    cases h
    refine ⟨natAbs_signed_le (littleAt_lt dib 4), ?_⟩
    simp only
    omega
  · cases h

/-! ## The bitmap by position -/

/-- A number that is used unchecked, if it is a word of 64 bits. -/
def word? (n : Nat) : Option Nat := if n < 2 ^ 64 then some n else none

theorem word?_eq {n : Nat} (h : n < 2 ^ 64) : word? n = some n := if_pos h

/-- A difference that is used unchecked, if it is not negative. -/
def minus? (a b : Nat) : Option Nat := if b ≤ a then some (a - b) else none

theorem minus?_eq {a b : Nat} (h : b ≤ a) : minus? a b = some (a - b) := if_pos h

/-- A number that is checked to be a word of 64 bits. -/
def checked (n : Nat) : Except Error Nat :=
  if n < 2 ^ 64 then .ok n else .error (.invalidData .bitmapTooLarge)

theorem checked_of_lt {n : Nat} (h : n < 2 ^ 64) : checked n = .ok n := if_pos h

theorem checked_of_not_lt {n : Nat} (h : ¬n < 2 ^ 64) :
    checked n = .error (.invalidData .bitmapTooLarge) := if_neg h

/-- The length of all rows, every sum and product on the way to it checked, and then those for the
bytes of the image. -/
def checkedLength (l : Layout) : Except Error Nat := do
  let row ← checked (l.width * l.bytesPerPixel)
  let padded ← checked (row + 3)
  let length ← checked (padded / 4 * 4 * l.height)
  let pixels ← checked (l.width * l.height)
  let _ ← checked (pixels * 4)
  return length

theorem Layout.Sound.checkedLength_eq {l : Layout} (h : l.Sound) :
    checkedLength l
      = if l.isCountable then .ok l.length else .error (.invalidData .bitmapTooLarge) := by
  have hwidth := h.width_le
  have hrow : l.width * l.bytesPerPixel + 3 < 2 ^ 64 := by
    rcases h.bytesPerPixel with hbytes | hbytes <;> rw [hbytes] <;> omega
  have hlength : (l.width * l.bytesPerPixel + 3) / 4 * 4 * l.height = l.length := rfl
  unfold checkedLength
  rw [checked_of_lt (by omega), ok_bind, checked_of_lt hrow, ok_bind, hlength]
  by_cases hrows : l.length < 2 ^ 64
  · rw [checked_of_lt hrows, ok_bind]
    by_cases harea : l.width * l.height * 4 < 2 ^ 64
    · rw [checked_of_lt (by omega), ok_bind, checked_of_lt harea, ok_bind,
        if_pos (Layout.isCountable_iff.mpr ⟨hrows, harea⟩)]
      rfl
    · have hfail : (do
          let pixels ← checked (l.width * l.height)
          let _ ← checked (pixels * 4)
          return l.length) = .error (.invalidData .bitmapTooLarge) := by
        by_cases hpixels : l.width * l.height < 2 ^ 64
        · rw [checked_of_lt hpixels, ok_bind, checked_of_not_lt harea, error_bind]
        · rw [checked_of_not_lt hpixels, error_bind]
      rw [hfail, if_neg (fun h => harea (Layout.isCountable_iff.mp h).2)]
  · rw [checked_of_not_lt hrows, error_bind, if_neg (fun h => hrows (Layout.isCountable_iff.mp h).1)]

def alphaAt? (bytesPerPixel : Nat) (bs : Bytes) : Option UInt8 :=
  if bytesPerPixel = 4 then bs[3]? else some 255

/-- The pixel that bytes are. -/
def pixelAt? (bytesPerPixel : Nat) (bs : Bytes) : Option Pixel := do
  let alpha ← alphaAt? bytesPerPixel bs
  let red ← bs[2]?
  let green ← bs[1]?
  let blue ← bs[0]?
  some { red, green, blue, alpha }

/-- The bytes in parts of one length; what is left over is dropped. -/
def parts (length : Nat) (bs : Bytes) : List Bytes :=
  (List.range (bs.length / length)).map (fun k => Endian.slice bs (k * length) length)

def storedRow? (l : Layout) (y : Nat) : Option Nat :=
  if l.bottomUp then (minus? l.height 1).bind (minus? · y) else some y

/-- A row of the image. -/
def rowAt? (l : Layout) (data : Bytes) (y : Nat) : Option (List Pixel) := do
  let row ← storedRow? l y
  let start ← word? (row * l.rowLength)
  let stop ← word? (start + l.width * l.bytesPerPixel)
  let line ← slice? data start stop
  (parts l.bytesPerPixel line).mapM (pixelAt? l.bytesPerPixel)

/-- The error that the pixels that were read make no image. -/
def notBuilt : Error := .imageDecode (.other "failed to build image from DIB")

/-- The image, or the error that there is none, from the bytes behind the header. -/
def imageAt? (l : Layout) (data : Bytes) : Option (Except Error Image) := do
  let rows ← (List.range l.height).mapM (rowAt? l data)
  match Image.ofRaw? l.width l.height (rows.flatten.flatMap Pixel.toBytes) with
  | some image => some (.ok image)
  | none => some (.error notBuilt)

def layoutAt? (dib : Bytes) : Option (Except Error Layout) := do
  let width ← littleAt? dib 4 4
  let height ← littleAt? dib 8 4
  let bits ← littleAt? dib 14 2
  if bits = 32 ∨ bits = 24 then
    some (.ok
      { width := (signed width).natAbs
        height := (signed height).natAbs
        bottomUp := 0 < signed height
        bytesPerPixel := bits / 8 })
  else some (.error (.imageDecode (.bitDepth bits)))

/-- `parse` by position and in words: nothing if it looks where there is no byte, or if a number that
it does not check is no word. -/
def parseAt? (dib : Bytes) : Option (Except Error Image) :=
  if dib.length < headerLength then some (.error (.invalidData .bitmapTooSmall))
  else do
    let size ← littleAt? dib 0 4
    if size < headerLength ∨ dib.length < size then some (.error (.invalidData .bitmapHeader))
    else
      match ← layoutAt? dib with
      | .error e => some (.error e)
      | .ok l =>
        match checkedLength l with
        | .error e => some (.error e)
        | .ok length => do
          let data ← slice? dib size dib.length
          if data.length < length then some (.error (.invalidData .bitmapTruncated))
          else imageAt? l data

/-! ### Pixels and rows -/

theorem getElem?_slice (bs : Bytes) (offset : Nat) {i length : Nat} (h : i < length) :
    (Endian.slice bs offset length)[i]? = bs[offset + i]? := by
  rw [Endian.slice, List.getElem?_take_of_lt h, List.getElem?_drop]

theorem slice_slice (bs : Bytes) (offset : Nat) {length start stop : Nat} (h : start + stop ≤ length) :
    Endian.slice (Endian.slice bs offset length) start stop
      = Endian.slice bs (offset + start) stop := by
  unfold Endian.slice
  rw [List.drop_take, List.drop_drop, List.take_take, Nat.min_eq_left (by omega)]

theorem mapM_eq_some_map {α β : Type} {f : α → Option β} {g : α → β} {as : List α}
    (h : ∀ a ∈ as, f a = some (g a)) : as.mapM f = some (as.map g) := by
  induction as with
  | nil => rfl
  | cons a as ih =>
    have hrest := ih (fun b hb => h b (List.mem_cons_of_mem a hb))
    rw [List.mapM_cons, h a List.mem_cons_self, hrest]
    rfl

section Reads

variable {l : Layout} {data : Bytes}

/-- Where the bytes of a pixel are. -/
def Layout.offset (l : Layout) (x y : Nat) : Nat :=
  l.storedRow y * l.rowLength + x * l.bytesPerPixel

theorem offset_end_le (hrows : l.length ≤ data.length) {x y : Nat} (hx : x < l.width)
    (hy : y < l.height) : l.offset x y + l.bytesPerPixel ≤ data.length := by
  have hrow := Layout.row_end_le (Layout.storedRow_lt hy)
  have hpixel := Layout.pixel_end_le hx
  unfold Layout.offset
  omega

theorem getElem?_eq_getD {i : Nat} (h : i < data.length) : data[i]? = some (data.toArray.getD i 0) := by
  simp [h]

/-- The bytes at the place of a pixel are those of the pixel that the layout gives there. -/
theorem Layout.Sound.getElem?_offset (h : l.Sound) (hrows : l.length ≤ data.length) {x y : Nat}
    (hx : x < l.width) (hy : y < l.height) :
    data[l.offset x y]? = some (l.pixel data.toArray x y).blue ∧
      data[l.offset x y + 1]? = some (l.pixel data.toArray x y).green ∧
      data[l.offset x y + 2]? = some (l.pixel data.toArray x y).red ∧
      if l.bytesPerPixel = 4 then
        data[l.offset x y + 3]? = some (l.pixel data.toArray x y).alpha
      else (l.pixel data.toArray x y).alpha = 255 := by
  have hend := offset_end_le hrows hx hy
  have hbytes := h.bytesPerPixel
  refine ⟨getElem?_eq_getD (by omega), getElem?_eq_getD (by omega), getElem?_eq_getD (by omega), ?_⟩
  by_cases hfour : l.bytesPerPixel = 4
  · rw [if_pos hfour, getElem?_eq_getD (by omega), Layout.pixel, if_pos hfour]
    rfl
  · rw [if_neg hfour, Layout.pixel, if_neg hfour]

theorem Layout.Sound.pixelAt?_eq (h : l.Sound) (hrows : l.length ≤ data.length) {x y : Nat}
    (hx : x < l.width) (hy : y < l.height) :
    pixelAt? l.bytesPerPixel (Endian.slice data (l.offset x y) l.bytesPerPixel)
      = some (l.pixel data.toArray x y) := by
  obtain ⟨hblue, hgreen, hred, halpha⟩ := h.getElem?_offset hrows hx hy
  have hbytes := h.bytesPerPixel
  have halphaAt : alphaAt? l.bytesPerPixel (Endian.slice data (l.offset x y) l.bytesPerPixel)
      = some (l.pixel data.toArray x y).alpha := by
    unfold alphaAt?
    by_cases hfour : l.bytesPerPixel = 4
    · rw [if_pos hfour] at halpha
      rw [if_pos hfour, getElem?_slice data _ (by omega), halpha]
    · rw [if_neg hfour] at halpha
      rw [if_neg hfour, halpha]
  have hblueAt := getElem?_slice data (l.offset x y) (by omega : 0 < l.bytesPerPixel)
  have hgreenAt := getElem?_slice data (l.offset x y) (by omega : 1 < l.bytesPerPixel)
  have hredAt := getElem?_slice data (l.offset x y) (by omega : 2 < l.bytesPerPixel)
  rw [Nat.add_zero, hblue] at hblueAt
  rw [hgreen] at hgreenAt
  rw [hred] at hredAt
  unfold pixelAt?
  rw [halphaAt, hblueAt, hgreenAt, hredAt]
  rfl

theorem storedRow?_eq {y : Nat} (hy : y < l.height) : storedRow? l y = some (l.storedRow y) := by
  unfold storedRow? Layout.storedRow
  split
  · rw [minus?_eq (by omega), Option.bind_some, minus?_eq (by omega)]
  · rfl

/-- A row is read within the bytes, and no place in it is too far for a word. -/
theorem Layout.Sound.rowAt?_eq (h : l.Sound) (hrows : l.length ≤ data.length)
    (hdata : data.length < 2 ^ 64) {y : Nat} (hy : y < l.height) :
    rowAt? l data y = some ((List.range l.width).map (l.pixel data.toArray · y)) := by
  have hpos : 0 < l.bytesPerPixel := by rcases h.bytesPerPixel with hb | hb <;> omega
  have hend := row_end_le (storedRow_lt hy)
  unfold rowAt?
  rw [storedRow?_eq hy]
  simp only [Option.bind_eq_bind, Option.bind_some]
  rw [word?_eq (by omega), Option.bind_some, word?_eq (by omega), Option.bind_some,
    slice?_eq (Nat.le_add_right _ _) (by omega), Option.bind_some, Nat.add_sub_cancel_left]
  have hlength : (Endian.slice data (l.storedRow y * l.rowLength) (l.width * l.bytesPerPixel)).length
      = l.width * l.bytesPerPixel := by
    rw [Endian.slice, List.length_take, List.length_drop]
    omega
  unfold parts
  rw [hlength, Nat.mul_div_cancel _ hpos, List.mapM_map]
  apply mapM_eq_some_map
  intro x hx
  have hx := List.mem_range.mp hx
  rw [Function.comp_apply, slice_slice _ _ (pixel_end_le hx)]
  exact h.pixelAt?_eq hrows hx hy

/-- The image is built from its rows. -/
theorem Layout.Sound.imageAt?_eq (h : l.Sound) (hrows : l.length ≤ data.length)
    (hdata : data.length < 2 ^ 63) : imageAt? l data = some (.ok (l.image data.toArray)) := by
  have hword : data.length < 2 ^ 64 := Nat.lt_trans hdata (by decide)
  have hcount := Layout.isCountable_iff.mp (h.isCountable hrows hdata)
  have himage : (((List.range l.height).map fun y =>
      (List.range l.width).map (l.pixel data.toArray · y)).flatten.flatMap Pixel.toBytes)
        = (l.image data.toArray).toBytes := by
    rw [Image.toBytes, image, Image.pixels_ofFn, ← List.flatMap_def]
  unfold imageAt?
  rw [mapM_eq_some_map (fun y hy => h.rowAt?_eq hrows hword (List.mem_range.mp hy))]
  simp only [Option.bind_eq_bind, Option.bind_some]
  have hbuilt : Image.ofRaw? l.width l.height (l.image data.toArray).toBytes
      = some (l.image data.toArray) :=
    (Image.isRaster_ofFn l.width l.height (l.pixel data.toArray)).ofRaw?_toBytes hcount.2
  rw [himage, hbuilt]

end Reads

/-! ### The whole bitmap -/

theorem layoutAt?_eq {dib : Bytes} (h : headerLength ≤ dib.length) :
    layoutAt? dib = some (layout dib) := by
  have hheader : headerLength = 40 := rfl
  unfold layoutAt? layout
  rw [littleAt?_eq (by omega), littleAt?_eq (by omega), littleAt?_eq (by omega)]
  simp only [Option.bind_eq_bind, Option.bind_some]
  split <;> rfl

/-- **No byte is looked for where there is none**, and no number is too great or too small for a word
unnoticed. -/
theorem parseAt?_eq {dib : Bytes} (h : dib.length < 2 ^ 63) :
    parseAt? dib = some (parse dib) := by
  have hheader : headerLength = 40 := rfl
  unfold parseAt? parse
  by_cases hsmall : dib.length < headerLength
  · rw [if_pos hsmall, if_pos hsmall]
  · rw [if_neg hsmall, if_neg hsmall, littleAt?_eq (by omega), layoutAt?_eq (by omega)]
    simp only [Option.bind_eq_bind, Option.bind_some]
    split
    · rfl
    · next hsize =>
      cases hlayout : layout dib with
      | error e => rfl
      | ok l =>
        have hsound := sound_of_layout hlayout
        simp only [hsound.checkedLength_eq]
        cases hcount : l.isCountable with
        | false => rfl
        | true =>
          have hdata : (dib.drop (Endian.littleAt dib 0 4)).length < 2 ^ 63 := by
            rw [List.length_drop]
            omega
          simp only [if_true, slice?_length (show Endian.littleAt dib 0 4 ≤ dib.length by omega),
            Option.bind_some, Bool.not_true, Bool.false_eq_true, if_false, List.size_toArray]
          split
          · rfl
          · next hrows => exact hsound.imageAt?_eq (by omega) hdata

/-! ## What the header says -/

/-- The length that the header gives for itself. -/
def headerSize (dib : Bytes) : Nat := Endian.littleAt dib 0 4

/-- The number of pixels in a row. -/
def columns (dib : Bytes) : Nat := (signed (Endian.littleAt dib 4 4)).natAbs

/-- The number of rows, positive if they are stored from the bottom to the top. -/
def signedHeight (dib : Bytes) : Int := signed (Endian.littleAt dib 8 4)

/-- The number of bits for a pixel. -/
def depth (dib : Bytes) : Nat := Endian.littleAt dib 14 2

/-- The number of bytes that a row takes: so many words of 32 bits as its bits need. -/
def stride (dib : Bytes) : Nat := (columns dib * depth dib + 31) / 32 * 4

/-- The header is there, has room for its fields and ends within the bytes; it tells of 24 or 32 bits
for a pixel, and all rows are behind it. -/
structure IsSound (dib : Bytes) : Prop where
  headerLength_le : headerLength ≤ dib.length
  headerLength_le_headerSize : headerLength ≤ headerSize dib
  headerSize_le : headerSize dib ≤ dib.length
  depth_eq : depth dib = 24 ∨ depth dib = 32
  rows_le : (signedHeight dib).natAbs * stride dib ≤ dib.length - headerSize dib

/-- The bytes from a place on are those of a pixel; one of 24 bits is opaque. -/
def Shows (dib : Bytes) (bits offset : Nat) (p : Pixel) : Prop :=
  dib[offset]? = some p.blue ∧ dib[offset + 1]? = some p.green ∧ dib[offset + 2]? = some p.red ∧
    if bits = 32 then dib[offset + 3]? = some p.alpha else p.alpha = 255

/-- The row of the bytes for a row of the image. -/
def storedRow (dib : Bytes) (y : Nat) : Nat :=
  if 0 < signedHeight dib then (signedHeight dib).natAbs - 1 - y else y

/-- Where a pixel of the image stands. -/
def pixelOffset (dib : Bytes) (x y : Nat) : Nat :=
  headerSize dib + storedRow dib y * stride dib + x * (depth dib / 8)

/-- The layout that a header of 24 or 32 bits describes. -/
def layoutOf (dib : Bytes) : Layout :=
  { width := columns dib
    height := (signedHeight dib).natAbs
    bottomUp := 0 < signedHeight dib
    bytesPerPixel := depth dib / 8 }

theorem layout_eq_ok_iff {dib : Bytes} {l : Layout} :
    layout dib = .ok l ↔ (depth dib = 24 ∨ depth dib = 32) ∧ l = layoutOf dib := by
  unfold layout
  simp only [depth]
  split
  · next hbits =>
    constructor
    · intro h
      cases h
      exact ⟨hbits.symm, rfl⟩
    · rintro ⟨-, rfl⟩
      rfl
  · next hbits =>
    constructor
    · intro h
      cases h
    · rintro ⟨h, -⟩
      exact absurd h.symm hbits

theorem rowLength_layoutOf {dib : Bytes} (h : depth dib = 24 ∨ depth dib = 32) :
    (layoutOf dib).rowLength = stride dib := by
  show (columns dib * (depth dib / 8) + 3) / 4 * 4 = (columns dib * depth dib + 31) / 32 * 4
  rcases h with h | h <;> rw [h] <;> omega

theorem length_layoutOf {dib : Bytes} (h : depth dib = 24 ∨ depth dib = 32) :
    (layoutOf dib).length = (signedHeight dib).natAbs * stride dib := by
  rw [Layout.length, rowLength_layoutOf h, Nat.mul_comm]
  rfl

theorem sound_layoutOf {dib : Bytes} (h : depth dib = 24 ∨ depth dib = 32) : (layoutOf dib).Sound :=
  sound_of_layout (layout_eq_ok_iff.mpr ⟨h, rfl⟩)

/-- What is read is the image that the layout gives, of the bytes behind the header. -/
theorem parse_eq_ok_iff {dib : Bytes} {image : Image} (h : dib.length < 2 ^ 63) :
    parse dib = .ok image ↔
      IsSound dib ∧ image = (layoutOf dib).image (dib.drop (headerSize dib)).toArray := by
  constructor
  · intro hparse
    unfold parse at hparse
    split at hparse
    · cases hparse
    · next hsmall =>
      simp only at hparse
      split at hparse
      · cases hparse
      · next hsize =>
        split at hparse
        · cases hparse
        · next l hlayout =>
          obtain ⟨hdepth, rfl⟩ := layout_eq_ok_iff.mp hlayout
          split at hparse
          · cases hparse
          · split at hparse
            · cases hparse
            · next hrows =>
              cases hparse
              rw [List.size_toArray, List.length_drop, length_layoutOf hdepth] at hrows
              refine ⟨⟨?_, ?_, ?_, hdepth, Nat.le_of_not_lt hrows⟩, rfl⟩
              · omega
              · unfold headerSize
                omega
              · unfold headerSize
                omega
  · rintro ⟨hsound, rfl⟩
    obtain ⟨hlength, hsize, hend, hdepth, hrows⟩ := hsound
    have hdata : (dib.drop (headerSize dib)).length < 2 ^ 63 := by
      rw [List.length_drop]
      omega
    rw [← length_layoutOf hdepth, ← List.length_drop] at hrows
    have hcount := (sound_layoutOf hdepth).isCountable hrows hdata
    have hlayout : layout dib = .ok (layoutOf dib) := layout_eq_ok_iff.mpr ⟨hdepth, rfl⟩
    unfold headerSize at hsize hend hrows
    unfold parse headerSize
    rw [if_neg (by omega)]
    simp only [hlayout, hcount, Bool.not_true, Bool.false_eq_true, if_false, List.size_toArray]
    rw [if_neg (by omega), if_neg (by omega)]

theorem parse_ne_notBuilt (dib : Bytes) : parse dib ≠ .error notBuilt := by
  intro hparse
  unfold parse at hparse
  split at hparse
  · cases hparse
  · simp only at hparse
    split at hparse
    · cases hparse
    · split at hparse
      · next e hlayout =>
        cases hparse
        unfold layout at hlayout
        simp only at hlayout
        split at hlayout <;> cases hlayout
      · split at hparse
        · cases hparse
        · split at hparse <;> cases hparse

/-- The bytes behind the header show the pixels of the image. -/
theorem shows_pixel {dib : Bytes} (h : IsSound dib) {x y : Nat} (hx : x < columns dib)
    (hy : y < (signedHeight dib).natAbs) :
    Shows dib (depth dib) (pixelOffset dib x y)
      ((layoutOf dib).pixel (dib.drop (headerSize dib)).toArray x y) := by
  have hrows : (layoutOf dib).length ≤ (dib.drop (headerSize dib)).length := by
    rw [length_layoutOf h.depth_eq, List.length_drop]
    exact h.rows_le
  have hoffset : pixelOffset dib x y = headerSize dib + (layoutOf dib).offset x y := by
    unfold pixelOffset Layout.offset Layout.storedRow storedRow
    rw [rowLength_layoutOf h.depth_eq, Nat.add_assoc]
    simp only [layoutOf, decide_eq_true_eq]
  have hfour : (layoutOf dib).bytesPerPixel = 4 ↔ depth dib = 32 := by
    have hdepth := h.depth_eq
    simp only [layoutOf]
    omega
  have hshows := (sound_layoutOf h.depth_eq).getElem?_offset hrows hx hy
  simp only [List.getElem?_drop, hfour] at hshows
  unfold Shows
  rw [hoffset]
  exact hshows

/-- **A bitmap is read safely and exactly.** No byte is looked for where there is none, no number is
too great for a word unnoticed, and the pixels that were read are always those of an image. There is
an image exactly if the header is sound and all rows are there. It has the size that the header says,
and its pixels are those that the bytes show, the rows from the bottom to the top if the height is
positive. -/
theorem parse_exact {dib : Bytes} (h : dib.length < 2 ^ 63) :
    parseAt? dib = some (parse dib) ∧ parse dib ≠ .error notBuilt ∧
      ((∃ image, parse dib = .ok image) ↔ IsSound dib) ∧
      ∀ image, parse dib = .ok image →
        image.width = columns dib ∧ image.height = (signedHeight dib).natAbs ∧ image.IsRaster ∧
          ∀ x < columns dib, ∀ y < (signedHeight dib).natAbs,
            ∃ p, image.pixel? x y = some p ∧ Shows dib (depth dib) (pixelOffset dib x y) p := by
  refine ⟨parseAt?_eq h, parse_ne_notBuilt dib, ⟨?_, ?_⟩, ?_⟩
  · rintro ⟨image, hparse⟩
    exact ((parse_eq_ok_iff h).mp hparse).1
  · intro hsound
    exact ⟨_, (parse_eq_ok_iff h).mpr ⟨hsound, rfl⟩⟩
  · intro image hparse
    obtain ⟨hsound, rfl⟩ := (parse_eq_ok_iff h).mp hparse
    refine ⟨rfl, rfl, Image.isRaster_ofFn _ _ _, ?_⟩
    intro x hx y hy
    exact ⟨_, Image.pixel?_ofFn _ hx hy, shows_pixel hsound hx hy⟩

/-- Two rows of one pixel of 24 bits: blue below, green above. -/
def blueBelowGreen : Bytes :=
  Endian.little 4 40 ++ Endian.little 4 1 ++ Endian.little 4 2 ++ [1, 0, 24, 0]
    ++ List.replicate 24 0 ++ [255, 0, 0, 0] ++ [0, 255, 0, 0]

theorem parse_exact_bottom_up :
    blueBelowGreen.length < 2 ^ 63 ∧ IsSound blueBelowGreen ∧
      parseAt? blueBelowGreen = some (parse blueBelowGreen) ∧
      ∃ image, parse blueBelowGreen = .ok image ∧ image.width = 1 ∧ image.height = 2 ∧
        ∃ p, image.pixel? 0 0 = some p ∧ Shows blueBelowGreen 24 44 p := by
  have hlength : blueBelowGreen.length < 2 ^ 63 := by decide
  have hsound : IsSound blueBelowGreen := ⟨by decide, by decide, by decide, by decide, by decide⟩
  obtain ⟨hsafe, -, hread, hpixels⟩ := parse_exact hlength
  obtain ⟨image, hparse⟩ := hread.mpr hsound
  obtain ⟨hwidth, hheight, -, hshows⟩ := hpixels image hparse
  exact ⟨hlength, hsound, hsafe, image, hparse, hwidth, hheight,
    hshows 0 (by decide) 0 (by decide)⟩

end Clipboard.Bitmap
