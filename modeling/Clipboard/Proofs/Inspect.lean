import Clipboard.Inspect
import Clipboard.Proofs.Steps

/-!
# Hexadecimal arguments

The bytes of an argument are given by pairs of digits; its blanks do not count. Written again, in
lower case, the bytes are the digits (`bytesOf_spec`), with one exception: the first character of a
pair may be a plus sign, which counts as a zero.
-/

namespace Clipboard

/-! ## Digits -/

namespace Hex

variable {c : Char} {n : Nat}

/-- A hexadecimal digit of either case. -/
def IsDigit (c : Char) : Prop :=
  ('0' ≤ c ∧ c ≤ '9') ∨ ('a' ≤ c ∧ c ≤ 'f') ∨ ('A' ≤ c ∧ c ≤ 'F')

/-- Digits are the characters that have a value. -/
theorem isDigit_iff : IsDigit c ↔ ∃ n, value? c = some n := by
  have hle (a b : Char) : a ≤ b ↔ a.toNat ≤ b.toNat := Iff.rfl
  have hbounds : IsDigit c ↔ (0x30 ≤ c.toNat ∧ c.toNat ≤ 0x39) ∨ (0x61 ≤ c.toNat ∧ c.toNat ≤ 0x66) ∨
      (0x41 ≤ c.toNat ∧ c.toNat ≤ 0x46) := by
    simp only [IsDigit, hle]
    rfl
  rw [hbounds, ← Option.isSome_iff_exists, value?]
  simp only [Bool.and_eq_true, decide_eq_true_eq]
  split
  · next h => simp [h]
  · split
    · next h => simp [h]
    · split
      · next h => simp [h]
      · next h₁ h₂ h₃ => simp [h₁, h₂, h₃]

instance (c : Char) : Decidable (IsDigit c) :=
  decidable_of_iff ((value? c).isSome = true) (by rw [isDigit_iff, Option.isSome_iff_exists])

theorem toNat_lt_of_value? (h : value? c = some n) : c.toNat < 0x80 := by
  rw [value?] at h
  simp only [Bool.and_eq_true, decide_eq_true_eq] at h
  repeat' split at h
  all_goals first | omega | cases h

/-- The digit of the value of a digit is the digit itself, in lower case. -/
theorem digit_of_value? (h : value? c = some n) : n < 16 ∧ digit n = c.toLower := by
  have hall : ∀ m < 0x80, ∀ n ∈ value? (Char.ofNat m), n < 16 ∧ digit n = (Char.ofNat m).toLower := by
    decide +kernel
  have hdigit := hall c.toNat (toNat_lt_of_value? h)
  rw [Char.ofNat_toNat] at hdigit
  exact hdigit n h

theorem encodeByte_ofNat {high low : Nat} (hh : high < 16) (hl : low < 16) :
    encodeByte (UInt8.ofNat (16 * high + low)) = [digit high, digit low] := by
  rw [encodeByte, UInt8.toNat_ofNat_of_lt' (show 16 * high + low < 0x100 by omega),
    show (16 * high + low) / 16 = high by omega, show (16 * high + low) % 16 = low by omega]

end Hex

namespace Inspect

open Hex (IsDigit)

/-! ## Pairs -/

/-- The characters of an argument that count. -/
def digitsOf (hex : String) : List Char := hex.toList.filter (fun c => !Text.isBlank c)

/-- Pairs of digits, in which a plus sign may be in place of the first. -/
inductive Paired : List Char → Prop where
  | nil : Paired []
  | cons {a b : Char} {rest : List Char} : a = '+' ∨ IsDigit a → IsDigit b → Paired rest →
      Paired (a :: b :: rest)

/-- The digit that a character counts as, in lower case. -/
def digitFor (c : Char) : Char := if c = '+' then '0' else c.toLower

variable {a b : Char} {cs : List Char} {bytes : Bytes}

theorem not_isDigit_plus : ¬IsDigit '+' := by decide

/-- The value of the first character of a pair. -/
def firstValue? (a : Char) : Option Nat := if a = '+' then some 0 else Hex.value? a

theorem byte?_eq (a b : Char) : byte? a b =
    (Hex.value? b).bind fun low => (firstValue? a).map fun high => UInt8.ofNat (16 * high + low) := by
  unfold byte? firstValue?
  cases Hex.value? b with
  | none => rfl
  | some low =>
    split
    · rfl
    · cases Hex.value? a <;> rfl

theorem exists_firstValue?_iff : (∃ n, firstValue? a = some n) ↔ a = '+' ∨ IsDigit a := by
  by_cases hplus : a = '+'
  · simp [firstValue?, hplus]
  · simp [firstValue?, hplus, Hex.isDigit_iff]

/-- The first character of a pair has the value of the digit that it counts as. -/
theorem digit_of_firstValue? {n : Nat} (h : firstValue? a = some n) :
    n < 16 ∧ Hex.digit n = digitFor a := by
  by_cases hplus : a = '+'
  · rw [firstValue?, if_pos hplus] at h
    cases h
    rw [digitFor, if_pos hplus]
    decide
  · rw [firstValue?, if_neg hplus] at h
    rw [digitFor, if_neg hplus]
    exact Hex.digit_of_value? h

theorem digitFor_of_isDigit (h : IsDigit a) : digitFor a = a.toLower := by
  refine if_neg ?_
  rintro rfl
  exact not_isDigit_plus h

theorem exists_byte? (ha : a = '+' ∨ IsDigit a) (hb : IsDigit b) : ∃ byte, byte? a b = some byte := by
  obtain ⟨high, hhigh⟩ := exists_firstValue?_iff.mpr ha
  obtain ⟨low, hlow⟩ := Hex.isDigit_iff.mp hb
  exact ⟨_, by rw [byte?_eq, hlow, Option.bind_some, hhigh, Option.map_some]⟩

/-- The byte of a pair is written with the digits that its characters count as. -/
theorem of_byte? {byte : UInt8} (h : byte? a b = some byte) :
    (a = '+' ∨ IsDigit a) ∧ IsDigit b ∧ Hex.encodeByte byte = [digitFor a, digitFor b] := by
  rw [byte?_eq] at h
  obtain ⟨low, hlow, h⟩ := Option.bind_eq_some_iff.mp h
  obtain ⟨high, hhigh, rfl⟩ := Option.map_eq_some_iff.mp h
  have hb : IsDigit b := Hex.isDigit_iff.mpr ⟨low, hlow⟩
  obtain ⟨hhlt, hha⟩ := digit_of_firstValue? hhigh
  obtain ⟨hllt, hlb⟩ := Hex.digit_of_value? hlow
  refine ⟨exists_firstValue?_iff.mp ⟨high, hhigh⟩, hb, ?_⟩
  rw [Hex.encodeByte_ofNat hhlt hllt, hha, hlb, digitFor_of_isDigit hb]

theorem Paired.even (h : Paired cs) : cs.length % 2 = 0 := by
  induction h with
  | nil => rfl
  | cons _ _ _ ih =>
    rw [List.length_cons, List.length_cons]
    omega

theorem Paired.exists_pairs (h : Paired cs) : ∃ bytes, pairs cs = .ok bytes := by
  induction h with
  | nil => exact ⟨[], rfl⟩
  | cons ha hb _ ih =>
    obtain ⟨byte, hbyte⟩ := exists_byte? ha hb
    obtain ⟨bytes, hbytes⟩ := ih
    refine ⟨byte :: bytes, ?_⟩
    simp only [pairs, hbyte, hbytes, Except.map]

/-- The bytes of pairs are written with the digits that the characters count as. -/
theorem of_pairs (h : pairs cs = .ok bytes) :
    Paired cs ∧ Hex.encode bytes = cs.map digitFor := by
  fun_induction pairs cs generalizing bytes with
  | case1 =>
    cases h
    exact ⟨.nil, rfl⟩
  | case2 => cases h
  | case3 => cases h
  | case4 a b rest byte hbyte ih =>
    obtain ⟨more, hmore, rfl⟩ := of_map_eq_ok h
    obtain ⟨ha, hb, hwritten⟩ := of_byte? hbyte
    obtain ⟨hrest, hencode⟩ := ih hmore
    refine ⟨.cons ha hb hrest, ?_⟩
    rw [Hex.encode, List.flatMap_cons, hwritten, ← Hex.encode, hencode]
    rfl

theorem paired_of_isDigit : ∀ {cs : List Char}, cs.length % 2 = 0 → (∀ c ∈ cs, IsDigit c) → Paired cs
  | [], _, _ => .nil
  | [_], heven, _ => by cases heven
  | a :: b :: rest, heven, hdigits => by
    simp only [List.forall_mem_cons] at hdigits
    obtain ⟨ha, hb, hrest⟩ := hdigits
    refine .cons (Or.inr ha) hb (paired_of_isDigit ?_ hrest)
    rw [List.length_cons, List.length_cons] at heven
    omega

theorem Paired.isDigit (h : Paired cs) (hplus : '+' ∉ cs) : ∀ c ∈ cs, IsDigit c := by
  induction h with
  | nil => exact fun c hc => absurd hc List.not_mem_nil
  | cons ha hb _ ih =>
    simp only [List.mem_cons, not_or] at hplus
    simp only [List.forall_mem_cons]
    exact ⟨ha.resolve_left (Ne.symm hplus.1), hb, ih hplus.2.2⟩

/-! ## Arguments -/

/-- Pairs are an even number of characters, so an argument is refused for its length only if it
would be otherwise. -/
theorem bytesOf_eq_ok_iff {hex : String} : bytesOf hex = .ok bytes ↔ pairs (digitsOf hex) = .ok bytes := by
  unfold bytesOf
  change (if (digitsOf hex).length % 2 = 1 then _ else pairs (digitsOf hex)) = _ ↔ _
  by_cases hodd : (digitsOf hex).length % 2 = 1
  · rw [if_pos hodd]
    refine ⟨nofun, fun h => ?_⟩
    have heven := (of_pairs h).1.even
    omega
  · rw [if_neg hodd]

theorem map_digitFor_eq_iff (h : Paired cs) : cs.map digitFor = cs.map Char.toLower ↔ '+' ∉ cs := by
  constructor
  · intro hmap hplus
    have hzero := List.map_inj_left.mp hmap '+' hplus
    revert hzero
    decide
  · intro hplus
    exact List.map_inj_left.mpr (fun c hc => digitFor_of_isDigit (h.isDigit hplus c hc))

/-! ## Bytes written -/

theorem digit_ne {n : Nat} (h : n < 16) :
    Hex.digit n ≠ '+' ∧ Text.isBlank (Hex.digit n) = false := by
  have hall : ∀ m < 16, Hex.digit m ≠ '+' ∧ Text.isBlank (Hex.digit m) = false := by decide
  exact hall n h

theorem digitsOf_encode (bytes : Bytes) :
    digitsOf (String.ofList (Hex.encode bytes)) = Hex.encode bytes := by
  rw [digitsOf, String.toList_ofList, List.filter_eq_self]
  intro c hc
  obtain ⟨byte, -, hc⟩ := List.mem_flatMap.mp hc
  have hbyte := byte.toNat_lt
  simp only [Hex.encodeByte, List.mem_cons, List.not_mem_nil, or_false] at hc
  rcases hc with rfl | rfl
  · simp [(digit_ne (show byte.toNat / 16 < 16 by omega)).2]
  · simp [(digit_ne (show byte.toNat % 16 < 16 by omega)).2]

theorem byte?_digits (byte : UInt8) :
    byte? (Hex.digit (byte.toNat / 16)) (Hex.digit (byte.toNat % 16)) = some byte := by
  have hbyte := byte.toNat_lt
  have hhigh : byte.toNat / 16 < 16 := by omega
  rw [byte?_eq, firstValue?, if_neg (digit_ne hhigh).1, Hex.value?_digit hhigh,
    Hex.value?_digit (by omega), Option.bind_some, Option.map_some, Nat.div_add_mod,
    UInt8.ofNat_toNat]

theorem pairs_encode (bytes : Bytes) : pairs (Hex.encode bytes) = .ok bytes := by
  induction bytes with
  | nil => rfl
  | cons byte bytes ih =>
    have hcons : Hex.encode (byte :: bytes)
        = Hex.digit (byte.toNat / 16) :: Hex.digit (byte.toNat % 16) :: Hex.encode bytes := rfl
    rw [hcons, pairs, byte?_digits]
    simp only [ih, Except.map]

/-- **What an argument gives.** Without its blanks it is pairs of digits, a plus sign being allowed in
place of the first of a pair; anything else is refused. Where no plus sign is used, it is just any
even number of digits, and the bytes are written with these digits, in lower case; a plus sign comes
back as a zero. Any bytes are given by what they are written as. -/
theorem bytesOf_spec (hex : String) :
    ((∃ bytes, bytesOf hex = .ok bytes) ↔ Paired (digitsOf hex)) ∧
      ('+' ∉ digitsOf hex → (Paired (digitsOf hex) ↔
        (digitsOf hex).length % 2 = 0 ∧ ∀ c ∈ digitsOf hex, IsDigit c)) ∧
      (∀ bytes, bytesOf hex = .ok bytes →
        Hex.encode bytes = (digitsOf hex).map digitFor ∧
          (Hex.encode bytes = (digitsOf hex).map Char.toLower ↔ '+' ∉ digitsOf hex)) ∧
      ∀ bytes, bytesOf (String.ofList (Hex.encode bytes)) = .ok bytes := by
  refine ⟨⟨?_, ?_⟩, ?_, ?_, ?_⟩
  · rintro ⟨bytes, h⟩
    exact (of_pairs (bytesOf_eq_ok_iff.mp h)).1
  · intro h
    obtain ⟨bytes, hbytes⟩ := h.exists_pairs
    exact ⟨bytes, bytesOf_eq_ok_iff.mpr hbytes⟩
  · intro hplus
    exact ⟨fun h => ⟨h.even, h.isDigit hplus⟩, fun h => paired_of_isDigit h.1 h.2⟩
  · intro bytes h
    obtain ⟨hpaired, hencode⟩ := of_pairs (bytesOf_eq_ok_iff.mp h)
    exact ⟨hencode, by rw [hencode, map_digitFor_eq_iff hpaired]⟩
  · intro bytes
    rw [bytesOf_eq_ok_iff, digitsOf_encode, pairs_encode]

/-- Digits of both cases, the pairs cut by blanks of two kinds. -/
theorem bytesOf_spec_blanks :
    let hex := " 0A\u3000f\nF"
    '+' ∉ digitsOf hex ∧ ∃ bytes, bytesOf hex = .ok bytes ∧ Hex.encode bytes = "0aff".toList := by
  intro hex
  have hdigits : digitsOf hex = ['0', 'A', 'f', 'F'] := by decide +kernel
  have hplus : '+' ∉ digitsOf hex := by rw [hdigits]; decide
  obtain ⟨hread, hpaired, hwritten, -⟩ := bytesOf_spec hex
  have heven : (digitsOf hex).length % 2 = 0 := by rw [hdigits]; rfl
  have hall : ∀ c ∈ digitsOf hex, IsDigit c := by
    rw [hdigits]
    simp only [List.forall_mem_cons, List.not_mem_nil, false_implies, implies_true, and_true]
    decide
  obtain ⟨bytes, hbytes⟩ := hread.mpr ((hpaired hplus).mpr ⟨heven, hall⟩)
  refine ⟨hplus, bytes, hbytes, ?_⟩
  rw [(hwritten bytes hbytes).1, hdigits]
  decide

/-- A plus sign is no digit, and it is not refused. -/
theorem bytesOf_plus :
    digitsOf "+f" = ['+', 'f'] ∧ ¬IsDigit '+' ∧ bytesOf "+f" = .ok [0x0f] ∧
      Hex.encode [0x0f] = ['0', 'f'] := by
  have hdigits : digitsOf "+f" = ['+', 'f'] := by decide +kernel
  refine ⟨hdigits, not_isDigit_plus, ?_, by decide⟩
  rw [bytesOf_eq_ok_iff, hdigits]
  rfl

end Inspect

end Clipboard
