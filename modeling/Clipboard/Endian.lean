import Clipboard.Text.Hex

/-!
# Numbers in bytes

A number of fixed width, the low byte first (`little`) or the high byte first (`big`). Higher bits
than fit are dropped. `ofLittle_little` and `ofBig_big` say that a number that fits is read back.
-/

namespace Clipboard.Endian

/-- The low `width` bytes of a number, the lowest first. -/
def little : (width : Nat) → Nat → Bytes
  | 0, _ => []
  | width + 1, n => UInt8.ofNat n :: little width (n / 256)

/-- The low `width` bytes of a number, the highest first. -/
def big (width n : Nat) : Bytes := (little width n).reverse

/-- The number of bytes, the lowest first. -/
def ofLittle : Bytes → Nat
  | [] => 0
  | b :: bs => b.toNat + 256 * ofLittle bs

/-- The number of bytes, the highest first. -/
def ofBig (bs : Bytes) : Nat := ofLittle bs.reverse

@[simp] theorem length_little (width n : Nat) : (little width n).length = width := by
  induction width generalizing n with
  | zero => rfl
  | succ width ih => simp [little, ih]

/-- Higher bits than fit are dropped. -/
theorem ofLittle_little_eq_mod (width n : Nat) :
    ofLittle (little width n) = n % Nat.pow 256 width := by
  induction width generalizing n with
  | zero => exact (Nat.mod_one n).symm
  | succ width ih =>
    have hpow : Nat.pow 256 (width + 1) = 256 * Nat.pow 256 width := Nat.pow_succ'
    simp only [little, ofLittle, ih, UInt8.toNat_ofNat', hpow, Nat.mod_mul]

theorem ofLittle_little (width n : Nat) (h : n < Nat.pow 256 width) : ofLittle (little width n) = n := by
  induction width generalizing n with
  | zero =>
    have : n = 0 := by simpa using h
    simp [little, ofLittle, this]
  | succ width ih =>
    have hd : n / 256 < Nat.pow 256 width := by
      apply (Nat.div_lt_iff_lt_mul (by decide)).2
      simpa [Nat.pow_succ] using h
    simp only [little, ofLittle, ih _ hd, UInt8.toNat_ofNat']
    omega

theorem ofBig_big (width n : Nat) (h : n < Nat.pow 256 width) : ofBig (big width n) = n := by
  simp [ofBig, big, ofLittle_little width n h]

/-- The bytes from an offset on, `length` of them. -/
def slice (bs : Bytes) (offset length : Nat) : Bytes := (bs.drop offset).take length

/-- Bytes behind a slice do not change it. -/
theorem slice_append_left {bs : Bytes} {offset length : Nat} (h : offset + length ≤ bs.length)
    (more : Bytes) : slice (bs ++ more) offset length = slice bs offset length := by
  rw [slice, slice, List.drop_append_of_le_length (by omega),
    List.take_append_of_le_length (by rw [List.length_drop]; omega)]

/-- The number at an offset, the low byte first. -/
def littleAt (bs : Bytes) (offset width : Nat) : Nat := ofLittle (slice bs offset width)

/-- The number at an offset, the high byte first. -/
def bigAt (bs : Bytes) (offset width : Nat) : Nat := ofBig (slice bs offset width)

end Clipboard.Endian
