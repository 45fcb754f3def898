import Clipboard.Json.Numeral
import Clipboard.Json.Printer

/-!
# Numerals with something behind them

A number is written as a sign, digits, perhaps a fraction and perhaps an exponent (`Spells`). Behind it
stands the end of the text, a comma or a closing bracket (`Delimited`). Then a numeral that is read
ends where the number ends, and what it is does not depend on what stands behind it
(`exists_ofChars_append`).
-/

namespace Clipboard.Json

/-- What may stand behind a value. -/
def Delimited (rest : List Char) : Prop := ∀ c ∈ rest.head?, c = ',' ∨ c = ']' ∨ c = '\x7d'

theorem delimited_nil : Delimited [] := nofun

theorem delimited_cons {c : Char} (h : c = ',' ∨ c = ']' ∨ c = '\x7d') (rest : List Char) :
    Delimited (c :: rest) := by
  rintro _ ⟨⟩
  exact h

namespace Numeral

/-- Digits and nothing else. -/
def AreDigits (ds : List Char) : Prop := ∀ c ∈ ds, c.isDigit = true

/-- The text does not begin with a digit. -/
def StopsDigits (rest : List Char) : Prop := ∀ c ∈ rest.head?, c.isDigit = false

/-- A fraction, or none. -/
inductive IsFraction : List Char → Prop where
  | none : IsFraction []
  | some {ds : List Char} : AreDigits ds → IsFraction ('.' :: ds)

/-- An exponent with a sign, or none. -/
inductive IsExponent : List Char → Prop where
  | none : IsExponent []
  | some {sign : Char} {ds : List Char} : sign = '+' ∨ sign = '-' → AreDigits ds →
      IsExponent ('e' :: sign :: ds)

/-- A text is a sign, or none, digits, at least one, and perhaps a fraction and an exponent. -/
inductive Spells : List Char → Prop where
  | mk {sign whole fraction exponent : List Char} : sign = [] ∨ sign = ['-'] → whole ≠ [] →
      AreDigits whole → IsFraction fraction → IsExponent exponent →
      Spells (sign ++ (whole ++ (fraction ++ exponent)))

variable {ds rest : List Char}

/-! ## Where the parts end -/

theorem stopsDigits_cons {c : Char} (h : c.isDigit = false) (rest : List Char) :
    StopsDigits (c :: rest) := by
  rintro _ ⟨⟩
  exact h

theorem stopsDigits_of_delimited (h : Delimited rest) : StopsDigits rest := by
  intro c hc
  rcases h c hc with rfl | rfl | rfl <;> decide

theorem IsExponent.stopsDigits {exponent : List Char} (h : IsExponent exponent)
    (hrest : Delimited rest) : StopsDigits (exponent ++ rest) := by
  cases h with
  | none => exact stopsDigits_of_delimited hrest
  | some _ _ => exact stopsDigits_cons (by decide) _

theorem IsFraction.stopsDigits {fraction exponent : List Char} (h : IsFraction fraction)
    (hexponent : IsExponent exponent) (hrest : Delimited rest) :
    StopsDigits (fraction ++ (exponent ++ rest)) := by
  cases h with
  | none => exact hexponent.stopsDigits hrest
  | some _ => exact stopsDigits_cons (by decide) _

/-- A run of digits is read up to what is none. -/
theorem digits_append (hds : AreDigits ds) (hrest : StopsDigits rest) :
    digits (ds ++ rest) = (ds.map (fun c => c.toNat - 0x30), rest) := by
  induction ds with
  | nil =>
    cases rest with
    | nil => rfl
    | cons c rest =>
      have hc : Text.digit? c = none := by simp [Text.digit?, hrest c rfl]
      rw [List.nil_append, digits, hc]
      rfl
  | cons d ds ih =>
    have hd : Text.digit? d = some (d.toNat - 0x30) := if_pos (hds d List.mem_cons_self)
    rw [List.cons_append, digits, hd]
    simp only [ih (fun c hc => hds c (List.mem_cons_of_mem d hc)), List.map_cons]

/-! ## The parts -/

theorem exists_fractionOf_append {fraction : List Char} (h : IsFraction fraction) :
    ∃ o : Except Fault (Option (List Nat)), ∀ rest, StopsDigits rest → '.' ∉ rest.head? →
      fractionOf (fraction ++ rest) = o.map (·, rest) := by
  cases h with
  | none =>
    refine ⟨.ok none, fun rest _ hpoint => ?_⟩
    rw [List.nil_append]
    unfold fractionOf
    split
    · exact absurd rfl hpoint
    · rfl
  | @some ds hds =>
    refine ⟨if ds = [] then .error .invalidNumber else .ok (some (ds.map (fun c => c.toNat - 0x30))),
      fun rest hrest _ => ?_⟩
    rw [List.cons_append, fractionOf, digits_append hds hrest]
    cases ds <;> rfl

theorem exists_exponentOf_append {exponent : List Char} (h : IsExponent exponent) :
    ∃ o : Except Fault (Option (Bool × List Nat)), ∀ rest, Delimited rest →
      exponentOf (exponent ++ rest) = o.map (·, rest) := by
  cases h with
  | none =>
    refine ⟨.ok none, fun rest hrest => ?_⟩
    cases rest with
    | nil => rfl
    | cons c rest =>
      have hc : ¬(c = 'e' ∨ c = 'E') := by
        rcases hrest c rfl with rfl | rfl | rfl <;> decide
      exact if_neg hc
  | @some sign ds hsign hds =>
    refine ⟨if ds = [] then .error .invalidNumber
      else .ok (some (sign = '-', ds.map (fun c => c.toNat - 0x30))), fun rest hrest => ?_⟩
    have hdigits := digits_append hds (stopsDigits_of_delimited hrest)
    rcases hsign with rfl | rfl
    · rw [List.cons_append, List.cons_append, exponentOf, if_pos (Or.inl rfl)]
      simp only [hdigits]
      cases ds <;> rfl
    · rw [List.cons_append, List.cons_append, exponentOf, if_pos (Or.inl rfl)]
      simp only [hdigits]
      cases ds <;> rfl

/-! ## The numeral -/

theorem IsExponent.not_point {exponent : List Char} (h : IsExponent exponent)
    (hrest : Delimited rest) : '.' ∉ (exponent ++ rest).head? := by
  cases h with
  | none =>
    intro hpoint
    rcases hrest '.' hpoint with h | h | h <;> cases h
  | some _ _ => nofun

theorem exists_unsigned_append (negative : Bool) {whole fraction exponent : List Char}
    (hwhole : AreDigits whole) (hfraction : IsFraction fraction) (hexponent : IsExponent exponent) :
    ∃ o : Except Fault Numeral, ∀ rest, Delimited rest →
      unsigned negative (whole ++ (fraction ++ (exponent ++ rest))) = o.map (·, rest) := by
  obtain ⟨f, hf⟩ := exists_fractionOf_append hfraction
  obtain ⟨e, he⟩ := exists_exponentOf_append hexponent
  refine ⟨if (whole.map (fun c => c.toNat - 0x30)).isEmpty ∨
      ((whole.map (fun c => c.toNat - 0x30)).head? = some 0 ∧
        (whole.map (fun c => c.toNat - 0x30)).length ≠ 1) then .error .invalidNumber
    else f.bind fun fraction => e.map fun exponent =>
      { negative, whole := whole.map (fun c => c.toNat - 0x30), fraction, exponent }, ?_⟩
  intro rest hrest
  have hdigits := digits_append hwhole (hfraction.stopsDigits hexponent hrest)
  have hf := hf (exponent ++ rest) (hexponent.stopsDigits hrest) (hexponent.not_point hrest)
  unfold unsigned
  simp only [hdigits]
  split
  · rfl
  · rw [hf]
    cases f with
    | error fault => rfl
    | ok f =>
      simp only [Except.map, he rest hrest]
      cases e <;> rfl

/-- **A numeral ends where what was written for it ends.** -/
theorem exists_ofChars_append {cs : List Char} (h : Spells cs) :
    ∃ o : Except Fault Numeral, ∀ rest, Delimited rest → ofChars (cs ++ rest) = o.map (·, rest) := by
  obtain ⟨hsign, hne, hwhole, hfraction, hexponent⟩ := h
  rename_i sign whole fraction exponent
  have hassoc (rest : List Char) : whole ++ (fraction ++ exponent) ++ rest
      = whole ++ (fraction ++ (exponent ++ rest)) := by
    simp only [List.append_assoc]
  rcases hsign with rfl | rfl
  · obtain ⟨o, ho⟩ := exists_unsigned_append false hwhole hfraction hexponent
    refine ⟨o, fun rest hrest => ?_⟩
    rw [List.nil_append, hassoc, ← ho rest hrest]
    -- The first character is a digit, so it is no sign.
    cases whole with
    | nil => exact absurd rfl hne
    | cons d whole =>
      unfold ofChars
      split
      · next hminus =>
        rw [List.cons_append] at hminus
        cases hminus
        exact absurd (hwhole '-' List.mem_cons_self) (by decide)
      · rfl
  · obtain ⟨o, ho⟩ := exists_unsigned_append true hwhole hfraction hexponent
    refine ⟨o, fun rest hrest => ?_⟩
    rw [List.append_assoc, hassoc, ← ho rest hrest]
    rfl

theorem Spells.exists_cons {cs : List Char} (h : Spells cs) :
    ∃ c more, cs = c :: more ∧ (c = '-' ∨ c.isDigit = true) := by
  cases h with
  | @mk sign whole fraction exponent hsign hne hwhole _ _ =>
    rcases hsign with rfl | rfl
    · obtain ⟨d, whole, rfl⟩ := List.exists_cons_of_ne_nil hne
      exact ⟨d, _, rfl, Or.inr (hwhole d List.mem_cons_self)⟩
    · exact ⟨'-', _, rfl, Or.inl rfl⟩

/-! ## Numbers as they are written -/

theorem areDigits_decimal (n : Nat) : AreDigits (decimal n) :=
  fun _ => Nat.isDigit_of_mem_toDigits (by decide) (by decide)

theorem decimal_ne_nil (n : Nat) : decimal n ≠ [] := Nat.toDigits_ne_nil

theorem AreDigits.append {cs : List Char} (h : AreDigits ds) (hcs : AreDigits cs) :
    AreDigits (ds ++ cs) := by
  intro c hc
  exact (List.mem_append.mp hc).elim (h c) (hcs c)

theorem areDigits_replicate_zero (n : Nat) : AreDigits (List.replicate n '0') := by
  intro c hc
  rw [List.eq_of_mem_replicate hc]
  rfl

theorem AreDigits.take (h : AreDigits ds) (n : Nat) : AreDigits (ds.take n) :=
  fun c hc => h c (List.mem_of_mem_take hc)

theorem AreDigits.drop (h : AreDigits ds) (n : Nat) : AreDigits (ds.drop n) :=
  fun c hc => h c (List.mem_of_mem_drop hc)

/-- Digits with a point between them are a whole part and a fraction. -/
theorem withPoint_eq (hds : AreDigits ds) (places : Nat) (hplaces : places < ds.length) :
    ∃ whole fraction, whole ≠ [] ∧ AreDigits whole ∧ IsFraction fraction ∧
      withPoint ds places = whole ++ fraction := by
  refine ⟨_, _, ?_, hds.take _, .some (hds.drop _), rfl⟩
  intro hnil
  have hlength := congrArg List.length hnil
  rw [List.length_take, List.length_nil] at hlength
  omega

/-- The parts of a decimal that is not zero. -/
theorem writeDecimal_eq (d : Binary64.Decimal) :
    ∃ whole fraction exponent, whole ≠ [] ∧ AreDigits whole ∧ IsFraction fraction ∧
      IsExponent exponent ∧ writeDecimal d = whole ++ (fraction ++ exponent) := by
  have hds := areDigits_decimal d.digits
  have hne := decimal_ne_nil d.digits
  have hpos : 0 < (decimal d.digits).length := List.length_pos_iff.mpr hne
  unfold writeDecimal
  simp only
  split
  · refine ⟨decimal d.digits ++ List.replicate d.exponent.toNat '0', ['.', '0'], [], by simp [hne],
      hds.append (areDigits_replicate_zero _), .some (areDigits_replicate_zero 1), .none, rfl⟩
  · split
    · obtain ⟨whole, fraction, hwhole, hdigits, hfraction, heq⟩ :=
        withPoint_eq hds (-d.exponent).toNat (by omega)
      exact ⟨whole, fraction, [], hwhole, hdigits, hfraction, .none, by rw [heq, List.append_nil]⟩
    · split
      · exact ⟨['0'], _, [], by simp, areDigits_replicate_zero 1,
          .some ((areDigits_replicate_zero _).append hds), .none, by rw [List.append_nil]; rfl⟩
      · have hsign (n : Int) : (if n < 0 then '-' else '+') = '+' ∨
            (if n < 0 then '-' else '+') = '-' := by
          split
          · exact Or.inr rfl
          · exact Or.inl rfl
        have hexponent := IsExponent.some (hsign ((decimal d.digits).length + d.exponent - 1))
          (areDigits_decimal ((decimal d.digits).length + d.exponent - 1).natAbs)
        split
        · refine ⟨decimal d.digits, [], _, hne, hds, .none, hexponent, ?_⟩
          rw [List.append_assoc]
          rfl
        · obtain ⟨whole, fraction, hwhole, hdigits, hfraction, heq⟩ :=
            withPoint_eq hds ((decimal d.digits).length - 1) (by omega)
          refine ⟨whole, fraction, _, hwhole, hdigits, hfraction, hexponent, ?_⟩
          rw [heq, List.append_assoc, List.append_assoc]
          rfl

theorem isSign (negative : Prop) [Decidable negative] :
    (if negative then ['-'] else []) = [] ∨ (if negative then ['-'] else []) = ['-'] := by
  split
  · exact Or.inr rfl
  · exact Or.inl rfl

theorem spells_writeNumber (x : Number) : Spells (writeNumber x) := by
  cases x with
  | whole n =>
    have h := Spells.mk (isSign (n < 0)) (decimal_ne_nil n.natAbs) (areDigits_decimal n.natAbs)
      .none .none
    rwa [List.append_nil, List.append_nil] at h
  | real x =>
    rw [writeNumber]
    by_cases hzero : x.isZero = true
    · rw [if_pos hzero]
      exact .mk (isSign _) (by simp) (areDigits_replicate_zero 1) (.some (areDigits_replicate_zero 1))
        .none
    · rw [if_neg hzero]
      obtain ⟨whole, fraction, exponent, hne, hwhole, hfraction, hexponent, heq⟩ :=
        writeDecimal_eq x.shortest
      rw [heq]
      exact .mk (isSign _) hne hwhole hfraction hexponent

end Numeral

end Clipboard.Json
