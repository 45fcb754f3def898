import Clipboard.Json
import Clipboard.Json.Fault
import Clipboard.Text.Number

/-!
# Numerals

A numeral is a sign, digits without a leading zero, possibly a fraction, possibly an exponent of
ten. Without fraction and exponent it is a whole number if it fits 64 bits, minus zero excepted.

Otherwise as many digits as fit 64 bits make a whole number, which is rounded and then multiplied
or divided by a power of ten, rounded too; so the result can differ from the number nearest to the
numeral in its last bit.
-/

namespace Clipboard.Json

/-- The parts of a numeral. -/
structure Numeral where
  negative : Bool
  whole : List Nat
  /-- The digits behind the point, at least one, if there is a point. -/
  fraction : Option (List Nat)
  /-- The exponent of ten: whether it is negative, and its digits, at least one. -/
  exponent : Option (Bool × List Nat)
  deriving DecidableEq, Repr

namespace Numeral

/-! ## Taking a numeral off a text -/

def digits : List Char → List Nat × List Char
  | [] => ([], [])
  | c :: cs =>
    match Text.digit? c with
    | none => ([], c :: cs)
    | some d => (d :: (digits cs).1, (digits cs).2)

theorem length_digits_le (cs : List Char) : (digits cs).2.length ≤ cs.length := by
  induction cs with
  | nil => simp [digits]
  | cons c cs ih =>
    unfold digits
    split
    · simp
    · simp only [List.length_cons]; omega

/-- The exponent at the beginning, if there is one. -/
def exponentOf : List Char → Except Fault (Option (Bool × List Nat) × List Char)
  | [] => .ok (none, [])
  | c :: cs =>
    if c = 'e' ∨ c = 'E' then
      let (negative, rest) := match cs with
        | '+' :: rest => (false, rest)
        | '-' :: rest => (true, rest)
        | rest => (false, rest)
      if (digits rest).1.isEmpty then .error .invalidNumber
      else .ok (some (negative, (digits rest).1), (digits rest).2)
    else .ok (none, c :: cs)

/-- The fraction at the beginning, if there is one. -/
def fractionOf : List Char → Except Fault (Option (List Nat) × List Char)
  | '.' :: cs =>
    if (digits cs).1.isEmpty then .error .invalidNumber
    else .ok (some (digits cs).1, (digits cs).2)
  | cs => .ok (none, cs)

/-- The numeral at the beginning, without its sign. -/
def unsigned (negative : Bool) (cs : List Char) : Except Fault (Numeral × List Char) :=
  let whole := (digits cs).1
  if whole.isEmpty ∨ (whole.head? = some 0 ∧ whole.length ≠ 1) then .error .invalidNumber
  else
    match fractionOf (digits cs).2 with
    | .error fault => .error fault
    | .ok (fraction, rest) =>
      match exponentOf rest with
      | .error fault => .error fault
      | .ok (exponent, rest) => .ok ({ negative, whole, fraction, exponent }, rest)

def ofChars : List Char → Except Fault (Numeral × List Char)
  | '-' :: cs => unsigned true cs
  | cs => unsigned false cs

theorem length_of_exponentOf {cs rest : List Char} {e : Option (Bool × List Nat)}
    (h : exponentOf cs = .ok (e, rest)) : rest.length ≤ cs.length := by
  unfold exponentOf at h
  split at h
  · cases h; simp
  · split at h
    · split at h
      next negative rest' heq =>
      split at h
      · cases h
      · cases h
        have hd := length_digits_le rest'
        split at heq <;> cases heq <;> simp_all <;> omega
    · cases h; exact Nat.le_refl _

theorem length_of_fractionOf {cs rest : List Char} {f : Option (List Nat)}
    (h : fractionOf cs = .ok (f, rest)) : rest.length ≤ cs.length := by
  unfold fractionOf at h
  split at h
  · next cs' =>
    split at h
    · cases h
    · cases h
      have := length_digits_le cs'
      simp only [List.length_cons]; omega
  · cases h; exact Nat.le_refl _

theorem length_of_unsigned {negative : Bool} {cs rest : List Char} {n : Numeral}
    (h : unsigned negative cs = .ok (n, rest)) : rest.length < cs.length := by
  unfold unsigned at h
  simp only at h
  split at h
  · cases h
  · next hw =>
    have hd : (digits cs).2.length < cs.length := by
      cases cs with
      | nil => simp [digits] at hw
      | cons c cs =>
        unfold digits at hw ⊢
        split
        · next hc => simp [hc] at hw
        · have := length_digits_le cs
          simp only [List.length_cons]; omega
    split at h
    · cases h
    · next f r₁ hf =>
      split at h
      · cases h
      · next e r₂ he =>
        cases h
        have := length_of_fractionOf hf
        have := length_of_exponentOf he
        omega

/-- A numeral has at least one digit. -/
theorem length_of_ofChars {cs rest : List Char} {n : Numeral}
    (h : ofChars cs = .ok (n, rest)) : rest.length < cs.length := by
  unfold ofChars at h
  split at h
  · have := length_of_unsigned h
    simp only [List.length_cons]; omega
  · exact length_of_unsigned h

/-! ## The number of a numeral -/

/-- A significand followed by as many digits as fit 64 bits, and the digits left over. -/
def absorb (significand : Nat) : List Nat → Nat × List Nat
  | [] => (significand, [])
  | d :: ds =>
    if 10 * significand + d < Nat.pow 2 64 then absorb (10 * significand + d) ds
    else (significand, d :: ds)

/-- A number divided by a power of ten, `10 ^ 308` at a time. -/
def divideByPower (x : Binary64) (e : Nat) : Option Binary64 :=
  if x.isZero then some x
  else
    match Binary64.round? false (Nat.pow 10 (min e 308)) 1 with
    | none => none
    | some power =>
      match x.div? power with
      | none => none
      | some y => if e ≤ 308 then some y else divideByPower y (e - 308)
termination_by e

/-- A number multiplied by a power of ten. -/
def multiplyByPower (x : Binary64) (e : Nat) : Option Binary64 :=
  if x.isZero then some x
  else if 308 < e then none
  else do x.mul? (← Binary64.round? false (Nat.pow 10 e) 1)

/-- A significand times a power of ten. -/
def real? (negative : Bool) (significand : Nat) (e : Int) : Option Binary64 := do
  let x ← Binary64.ofNat? significand
  let y ← if 0 ≤ e then multiplyByPower x e.toNat else divideByPower x (-e).toNat
  return y.withSign negative

/-- The exponent beyond which every number but zero is out of range, one way or the other. -/
def exponentBound : Nat := Nat.pow 2 31

/-- The number of a numeral; none if it is out of range. -/
def toNumber? (n : Numeral) : Option Number :=
  let (w, left) := absorb 0 n.whole
  match left, n.fraction, n.exponent with
  | [], none, none =>
    if !n.negative then some (.whole w)
    else if w = 0 then some (.real (Binary64.zero true))
    else if w ≤ Nat.pow 2 63 then some (.whole (-(w : Int)))
    else (real? true w 0).map .real
  | _, _, _ =>
    let fraction := n.fraction.getD []
    let (significand, unread) := absorb w fraction
    let e : Int := (left.length : Int) - (fraction.length - unread.length : Nat)
    let (negative, ds) := n.exponent.getD (false, [])
    let shift := ds.foldl (fun k d => 10 * k + d) 0
    if exponentBound ≤ shift then
      if significand ≠ 0 ∧ !negative then none else some (.real (Binary64.zero n.negative))
    else (real? n.negative significand (if negative then e - shift else e + shift)).map .real

end Numeral

end Clipboard.Json
