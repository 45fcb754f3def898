import Clipboard.Text.Number
import Mathlib.Data.Nat.Digits.Defs

/-!
# Numerals

A numeral is a run of decimal digits, and its value goes by their places (`decimal`). `natural?`
reads the numerals and nothing else (`natural?_eq_some_iff`), `integer?` also those behind a sign
(`integer?_eq_some_iff`), and `signedWord?` those of them that fit 64 bits.
-/

namespace Clipboard.Text

/-- There are digits and nothing else. -/
structure IsNumeral (cs : List Char) : Prop where
  nonempty : cs ≠ []
  digits : ∀ c ∈ cs, c.isDigit = true

/-- The value of digits by their places, the last one that of the ones. -/
def decimal (cs : List Char) : Nat := Nat.ofDigits 10 (cs.reverse.map (fun c => c.toNat - 0x30))

/-- The text spells a whole number: the value of a numeral, which may be behind a sign. -/
inductive Spells : List Char → Int → Prop where
  | unsigned {cs : List Char} (h : IsNumeral cs) : Spells cs (decimal cs)
  | plus {cs : List Char} (h : IsNumeral cs) : Spells ('+' :: cs) (decimal cs)
  | minus {cs : List Char} (h : IsNumeral cs) : Spells ('-' :: cs) (-decimal cs)

variable {cs : List Char} {n value : Nat} {i : Int}

theorem Spells.ne_nil (h : Spells cs i) : cs ≠ [] := by
  cases h with
  | unsigned h => exact h.nonempty
  | plus | minus => exact List.cons_ne_nil _ _

theorem decimal_cons (c : Char) (cs : List Char) :
    decimal (c :: cs) = decimal cs + 10 ^ cs.length * (c.toNat - 0x30) := by
  rw [decimal, List.reverse_cons, List.map_append, Nat.ofDigits_append, List.length_map,
    List.length_reverse, List.map_singleton, Nat.ofDigits_singleton]
  rfl

/-- What was read before counts by the places behind it. -/
theorem digitsFrom_eq_some_iff :
    digitsFrom n cs = some value ↔
      (∀ c ∈ cs, c.isDigit = true) ∧ value = n * 10 ^ cs.length + decimal cs := by
  induction cs generalizing n with
  | nil =>
    have hvalue : n * 10 ^ 0 + decimal [] = n := by rw [pow_zero, mul_one]; rfl
    rw [digitsFrom, List.length_nil, hvalue, Option.some.injEq, eq_comm]
    simp only [List.not_mem_nil, false_implies, implies_true, true_and]
  | cons c cs ih =>
    rw [digitsFrom, digit?, List.forall_mem_cons]
    split
    · next hdigit =>
      have hplaces : (10 * n + (c.toNat - 0x30)) * 10 ^ cs.length + decimal cs
          = n * 10 ^ (c :: cs).length + decimal (c :: cs) := by
        rw [decimal_cons, List.length_cons, pow_succ]
        ring
      rw [Option.bind_some, ih, hplaces, and_iff_right hdigit]
    · next hdigit => simp [hdigit]

theorem natural?_eq_some_iff : natural? cs = some value ↔ IsNumeral cs ∧ value = decimal cs := by
  cases cs with
  | nil => exact iff_of_false nofun (fun h => h.1.nonempty rfl)
  | cons c cs =>
    have hread : natural? (c :: cs) = digitsFrom 0 (c :: cs) := rfl
    rw [hread, digitsFrom_eq_some_iff, Nat.zero_mul, Nat.zero_add]
    exact and_congr_left' ⟨fun h => ⟨List.cons_ne_nil c cs, h⟩, IsNumeral.digits⟩

theorem integer?_minus (cs : List Char) :
    integer? ('-' :: cs) = (natural? cs).map (fun n : Nat => -(n : Int)) := by
  rw [integer?]
  cases natural? cs <;> rfl

theorem integer?_eq_some_iff : integer? cs = some i ↔ Spells cs i := by
  constructor
  · intro h
    unfold integer? at h
    split at h
    · obtain ⟨value, hvalue, rfl⟩ := Option.map_eq_some_iff.mp h
      obtain ⟨hnumeral, rfl⟩ := natural?_eq_some_iff.mp hvalue
      exact .plus hnumeral
    · next cs =>
      have hminus := (integer?_minus cs).symm.trans h
      obtain ⟨value, hvalue, rfl⟩ := Option.map_eq_some_iff.mp hminus
      obtain ⟨hnumeral, rfl⟩ := natural?_eq_some_iff.mp hvalue
      exact .minus hnumeral
    · obtain ⟨value, hvalue, rfl⟩ := Option.map_eq_some_iff.mp h
      obtain ⟨hnumeral, rfl⟩ := natural?_eq_some_iff.mp hvalue
      exact .unsigned hnumeral
  · rintro (hnumeral | hnumeral | hnumeral)
    all_goals have hread := natural?_eq_some_iff.mpr ⟨hnumeral, rfl⟩
    · -- a numeral does not begin with a sign
      unfold integer?
      split
      · cases hnumeral.digits '+' List.mem_cons_self
      · cases hnumeral.digits '-' List.mem_cons_self
      · rw [hread]
        rfl
    · rw [integer?, hread]
      rfl
    · rw [integer?_minus, hread]
      rfl

theorem signedWord?_eq_some_iff :
    signedWord? cs = some i ↔ Spells cs i ∧ -2 ^ 63 ≤ i ∧ i < 2 ^ 63 := by
  have hbound : Int.pow 2 63 = 2 ^ 63 := rfl
  rw [signedWord?, Option.filter_eq_some_iff, integer?_eq_some_iff, hbound, Bool.and_eq_true,
    decide_eq_true_eq, decide_eq_true_eq]

end Clipboard.Text
