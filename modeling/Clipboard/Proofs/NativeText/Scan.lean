import Clipboard.Endian
import Clipboard.NativeText

/-!
# Where the scan for the terminator ends

`terminatedLength` goes through the bytes block by block, and a block at a place is zero or not
(`ZeroAt`). `Ends` says where the scan ends without going through the blocks: at the first multiple of
the length of a block at which there is a zero block or no block is left. There is one such place
(`Ends.unique`), and `terminatedLength` finds it (`terminatedLength_eq_iff`).
-/

namespace Clipboard.NativeText

open Endian (slice)

/-- At a place stands a block of `n` bytes, all of them zero. -/
def ZeroAt (n : Nat) (bytes : Bytes) (i : Nat) : Prop := slice bytes i n = List.replicate n 0

instance (n : Nat) (bytes : Bytes) (i : Nat) : Decidable (ZeroAt n bytes i) :=
  inferInstanceAs (Decidable (_ = _))

/-- A scan in blocks of `n` bytes ends at a place. -/
structure Ends (n : Nat) (bytes : Bytes) (r : Nat) : Prop where
  dvd : n ∣ r
  le_length : r ≤ bytes.length
  /-- Before it no block is zero. -/
  before : ∀ i, n ∣ i → i < r → ¬ZeroAt n bytes i
  /-- At it a block is zero, or there is less than a block. -/
  stop : ZeroAt n bytes r ∨ bytes.length < r + n

variable {n : Nat} {bytes : Bytes} {i r : Nat}

/-! ## Blocks -/

/-- A zero block is all there. -/
theorem ZeroAt.le_length (h : ZeroAt n bytes i) (hn : 0 < n) : i + n ≤ bytes.length := by
  have hlength := congrArg List.length h
  rw [slice, List.length_take, List.length_drop, List.length_replicate] at hlength
  omega

/-- Bytes behind a block do not change it. -/
theorem zeroAt_append (h : i + n ≤ bytes.length) (extra : Bytes) :
    ZeroAt n (bytes ++ extra) i ↔ ZeroAt n bytes i := by
  rw [ZeroAt, ZeroAt, Endian.slice_append_left h]

theorem zeroAt_drop (m : Nat) : ZeroAt n (bytes.drop m) i ↔ ZeroAt n bytes (m + i) := by
  rw [ZeroAt, ZeroAt, slice, slice, List.drop_drop]

theorem zeroAt_zero_iff (h : n ≤ bytes.length) :
    ZeroAt n bytes 0 ↔ (bytes.take n).all (· = 0) = true := by
  have hlength : (bytes.take n).length = n := by rw [List.length_take]; omega
  rw [ZeroAt, slice, List.drop_zero, List.eq_replicate_iff, List.all_eq_true]
  simp [hlength]

/-- Between two multiples there is room for a block. -/
theorem add_le_of_dvd (hi : n ∣ i) (hr : n ∣ r) (h : i < r) : i + n ≤ r := by
  obtain ⟨a, rfl⟩ := hi
  obtain ⟨b, rfl⟩ := hr
  have hab : a + 1 ≤ b := Nat.lt_of_mul_lt_mul_left h
  calc n * a + n = n * (a + 1) := (Nat.mul_succ n a).symm
    _ ≤ n * b := Nat.mul_le_mul_left n hab

/-! ## The end of a scan -/

namespace Ends

/-- A block that is not zero is passed over. -/
theorem step (hblock : n ≤ bytes.length) (hzero : ¬ZeroAt n bytes 0) (h : Ends n (bytes.drop n) r) :
    Ends n bytes (n + r) := by
  have hle := h.le_length
  rw [List.length_drop] at hle
  refine ⟨(Nat.dvd_add_right (Nat.dvd_refl n)).mpr h.dvd, by omega, ?_, ?_⟩
  · intro i hi hlt
    by_cases hi0 : i = 0
    · rwa [hi0]
    · have hni : n ≤ i := Nat.le_of_dvd (Nat.pos_of_ne_zero hi0) hi
      have hbefore := h.before (i - n) (Nat.dvd_sub hi (Nat.dvd_refl n)) (by omega)
      rwa [zeroAt_drop, Nat.add_sub_cancel' hni] at hbefore
  · refine h.stop.imp (zeroAt_drop n).mp (fun hshort => ?_)
    rw [List.length_drop] at hshort
    omega

/-- There is one place only where a scan ends. -/
theorem unique {s : Nat} (hr : Ends n bytes r) (hs : Ends n bytes s) : r = s := by
  -- The one that comes first has a block behind it, so that its block must be zero.
  have hle {r s : Nat} (hr : Ends n bytes r) (hs : Ends n bytes s) : s ≤ r := by
    refine Nat.le_of_not_lt (fun hlt => ?_)
    have hroom := add_le_of_dvd hr.dvd hs.dvd hlt
    rcases hr.stop with hzero | hshort
    · exact hs.before r hr.dvd hlt hzero
    · have hend := hs.le_length
      omega
  exact Nat.le_antisymm (hle hs hr) (hle hr hs)

/-- The bytes before the end are scanned to their own end. -/
theorem take (hn : 0 < n) (h : Ends n bytes r) : Ends n (bytes.take r) r := by
  have hlength : (bytes.take r).length = r := List.length_take_of_le h.le_length
  refine ⟨h.dvd, Nat.le_of_eq hlength.symm, ?_, Or.inr (by omega)⟩
  intro i hi hlt hzero
  have hroom := add_le_of_dvd hi h.dvd hlt
  refine h.before i hi hlt ?_
  rwa [← zeroAt_append (by omega) (bytes.drop r), List.take_append_drop] at hzero

/-- Behind a zero block anything may stand. -/
theorem append (hn : 0 < n) (h : Ends n bytes r) (hzero : ZeroAt n bytes r) (extra : Bytes) :
    Ends n (bytes ++ extra) r := by
  have hroom := hzero.le_length hn
  refine ⟨h.dvd, by rw [List.length_append]; omega, ?_, Or.inl ((zeroAt_append hroom extra).mpr hzero)⟩
  intro i hi hlt
  rw [zeroAt_append (by omega)]
  exact h.before i hi hlt

end Ends

theorem ends_terminatedLength (hn : 0 < n) (bytes : Bytes) :
    Ends n bytes (terminatedLength n bytes) := by
  -- The scan has passed over blocks that are not zero; the induction is on the blocks left.
  fun_induction terminatedLength n bytes with
  | case1 bytes hnone =>
    have hnil : bytes = [] := hnone.resolve_left (by omega)
    subst hnil
    exact ⟨Nat.dvd_zero n, Nat.le_refl 0, fun i _ hlt => absurd hlt (Nat.not_lt_zero i),
      Or.inr (by rw [List.length_nil]; omega)⟩
  | case2 bytes _ block hstop =>
    refine ⟨Nat.dvd_zero n, Nat.zero_le _, fun i _ hlt => absurd hlt (Nat.not_lt_zero i), ?_⟩
    by_cases hshort : bytes.length < n
    · exact Or.inr (by omega)
    · have hblock : n ≤ bytes.length := Nat.le_of_not_lt hshort
      have hlength : block.length = n := List.length_take_of_le hblock
      refine Or.inl ((zeroAt_zero_iff hblock).mpr (hstop.resolve_left ?_))
      omega
  | case3 bytes _ block hgo ih =>
    obtain ⟨hfull, hzero⟩ := not_or.mp hgo
    have hblock : n ≤ bytes.length := by
      have hlength : block.length = min n bytes.length := List.length_take
      omega
    exact ih.step hblock (fun h => hzero ((zeroAt_zero_iff hblock).mp h))

theorem terminatedLength_eq_iff (hn : 0 < n) : terminatedLength n bytes = r ↔ Ends n bytes r := by
  constructor
  · rintro rfl
    exact ends_terminatedLength hn bytes
  · exact (ends_terminatedLength hn bytes).unique

/-- **Where the scan ends.** At a multiple of the length of a block and within the bytes, with no zero
block before it, and with a zero block or less than a block behind it; no other place is like that.
So a second scan of what is before it ends there too, and bytes behind a zero block make no
difference. -/
theorem terminatedLength_spec (hn : 0 < n) (bytes : Bytes) :
    Ends n bytes (terminatedLength n bytes) ∧
      (∀ r, Ends n bytes r → r = terminatedLength n bytes) ∧
      terminatedLength n (bytes.take (terminatedLength n bytes)) = terminatedLength n bytes ∧
      (ZeroAt n bytes (terminatedLength n bytes) → ∀ extra,
        terminatedLength n (bytes ++ extra) = terminatedLength n bytes) := by
  have h := ends_terminatedLength hn bytes
  exact ⟨h, fun r hr => hr.unique h, (terminatedLength_eq_iff hn).mpr (h.take hn),
    fun hzero extra => (terminatedLength_eq_iff hn).mpr (h.append hn hzero extra)⟩

/-- Two zero bytes that no block holds, a block that is zero, and half a block behind it. -/
theorem terminatedLength_spec_straddled :
    let bytes : Bytes := [0x61, 0, 0, 0x62, 0, 0, 0x63]
    0 < 2 ∧ slice bytes 1 2 = [0, 0] ∧ ZeroAt 2 bytes 4 ∧ terminatedLength 2 bytes = 4 ∧
      ∀ extra, terminatedLength 2 (bytes ++ extra) = 4 := by
  intro bytes
  have hn : 0 < 2 := by decide
  have hzero : ZeroAt 2 bytes 4 := by decide
  obtain ⟨-, hunique, -, hbehind⟩ := terminatedLength_spec hn bytes
  have hlength : terminatedLength 2 bytes = 4 := by
    refine (hunique 4 ⟨by decide, by decide, ?_, Or.inl hzero⟩).symm
    rintro i ⟨k, rfl⟩ hlt
    have hk : k = 0 ∨ k = 1 := by omega
    rcases hk with rfl | rfl <;> decide
  rw [hlength] at hbehind
  exact ⟨hn, by decide, hzero, hlength, hbehind hzero⟩

end Clipboard.NativeText
