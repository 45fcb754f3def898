import Clipboard.Json.Token
import Clipboard.Proofs.Json.Numeral

/-!
# Tokens with something behind them

A string that was written is read up to its closing quote (`stringOf_written`), and a number up to what
stands behind it. So a text is cut where it was put together: what is cut off for a string, a number, a
word or a bracket is one token, and what stands behind is cut by itself.
-/

namespace Clipboard.Json.Token

variable {c : Char} {cs rest : List Char}

/-! ## Cutting off a token -/

theorem all_of_ofChars {t : Token} (hc : isBlank c = false) (h : ofChars c cs = .ok (t, rest)) :
    all (c :: cs) = (all rest).map (t :: ·) := by
  rw [all, if_neg (by simp [hc])]
  split
  · next fault hfault =>
    rw [h] at hfault
    cases hfault
  · next t' rest' hok =>
    rw [h] at hok
    cases hok
    cases all rest <;> rfl

theorem all_of_ofChars_error {fault : Fault} (hc : isBlank c = false)
    (h : ofChars c cs = .error fault) : all (c :: cs) = .error fault := by
  rw [all, if_neg (by simp [hc])]
  split
  · next fault' hfault =>
    rw [h] at hfault
    cases hfault
    rfl
  · next t' rest' hok =>
    rw [h] at hok
    cases hok

theorem all_openArray (cs : List Char) : all ('[' :: cs) = (all cs).map (.openArray :: ·) :=
  all_of_ofChars rfl rfl

theorem all_closeArray (cs : List Char) : all (']' :: cs) = (all cs).map (.closeArray :: ·) :=
  all_of_ofChars rfl rfl

theorem all_openObject (cs : List Char) : all ('\x7b' :: cs) = (all cs).map (.openObject :: ·) :=
  all_of_ofChars rfl rfl

theorem all_closeObject (cs : List Char) : all ('\x7d' :: cs) = (all cs).map (.closeObject :: ·) :=
  all_of_ofChars rfl rfl

theorem all_comma (cs : List Char) : all (',' :: cs) = (all cs).map (.comma :: ·) :=
  all_of_ofChars rfl rfl

theorem all_colon (cs : List Char) : all (':' :: cs) = (all cs).map (.colon :: ·) :=
  all_of_ofChars rfl rfl

/-! ## Strings -/

theorem stringOf_of_escaped? {e : Char} (h : escaped? e = some c) (hu : e ≠ 'u') (rest : List Char) :
    stringOf ('\\' :: e :: rest) = consChar c (stringOf rest) := by
  rw [stringOf, h]
  intro _ _ _ _ _ he
  exact absurd he hu

theorem stringOf_of_plain (hquote : c ≠ '\x22') (hslash : c ≠ '\\') (hcontrol : ¬c.toNat < 0x20)
    (rest : List Char) : stringOf (c :: rest) = consChar c (stringOf rest) := by
  rw [stringOf, if_neg hcontrol]
  · exact hquote
  · intro _ _ _ _ _ hc
    exact absurd hc hslash
  · intro _ _ hc
    exact absurd hc hslash

/-- A control character is written as the four digits of its unit. -/
theorem stringOf_of_control (h : c.toNat < 0x20) (rest : List Char) :
    stringOf (['\\', 'u', '0', '0'] ++ Hex.encodeByte (UInt8.ofNat c.toNat) ++ rest)
      = consChar c (stringOf rest) := by
  have hbyte : (UInt8.ofNat c.toNat).toNat = c.toNat :=
    UInt8.toNat_ofNat_of_lt' (show c.toNat < 0x100 by omega)
  have hzero : Hex.value? '0' = some 0 := by decide
  have hunit : unit? '0' '0' (Hex.digit (c.toNat / 16)) (Hex.digit (c.toNat % 16)) = some c.toNat := by
    rw [unit?, hzero, Hex.value?_digit (by omega), Hex.value?_digit (by omega)]
    show some ((0 * 16 + 0) * 256 + c.toNat / 16 * 16 + c.toNat % 16) = some c.toNat
    congr 1
    omega
  have hlow : Utf16.isLow c.toNat = false := by
    simp only [Utf16.isLow, Bool.and_eq_false_iff, decide_eq_false_iff_not]
    omega
  have hhigh : Utf16.isHigh c.toNat = false := by
    simp only [Utf16.isHigh, Bool.and_eq_false_iff, decide_eq_false_iff_not]
    omega
  rw [Hex.encodeByte, hbyte]
  simp only [List.cons_append, List.nil_append]
  rw [stringOf, hunit]
  simp only [hlow, hhigh, Bool.false_eq_true, if_false, Char.ofNat_toNat]

/-- **A character that was written is read**, and what stands behind it after it. -/
theorem stringOf_escape (c : Char) (rest : List Char) :
    stringOf (escape c ++ rest) = consChar c (stringOf rest) := by
  unfold escape
  split
  iterate 7 exact stringOf_of_escaped? rfl (by decide) rest
  · next hquote hslash _ _ _ _ _ =>
    split
    · next hcontrol => exact stringOf_of_control hcontrol rest
    · next hcontrol => exact stringOf_of_plain hquote hslash hcontrol rest

theorem stringOf_written (cs rest : List Char) :
    stringOf (cs.flatMap escape ++ '\x22' :: rest) = .ok (cs, rest) := by
  induction cs with
  | nil => rfl
  | cons c cs ih =>
    rw [List.flatMap_cons, List.append_assoc, stringOf_escape, ih]
    rfl

theorem all_writeString (s : String) (rest : List Char) :
    all (writeString s ++ rest) = (all rest).map (.string s :: ·) := by
  have hassoc : writeString s ++ rest = '\x22' :: (s.toList.flatMap escape ++ '\x22' :: rest) := by
    simp [writeString]
  rw [hassoc]
  refine all_of_ofChars rfl ?_
  show (stringOf _).map _ = _
  rw [stringOf_written]
  simp only [Except.map, String.ofList_toList]

/-! ## Words and numbers -/

theorem all_null (rest : List Char) :
    all ("null".toList ++ rest) = (all rest).map (.scalar .null :: ·) :=
  all_of_ofChars rfl rfl

theorem all_bool (b : Bool) (rest : List Char) :
    all ((if b then "true" else "false").toList ++ rest) = (all rest).map (.scalar (.bool b) :: ·) := by
  cases b with
  | true => exact all_of_ofChars rfl rfl
  | false => exact all_of_ofChars rfl rfl

/-- The token of a number. -/
theorem ofChars_of_numeral (h : c = '-' ∨ c.isDigit = true) (cs : List Char) :
    ofChars c cs =
      match Numeral.ofChars (c :: cs) with
      | .error fault => .error fault
      | .ok (numeral, rest) =>
        match numeral.toNumber? with
        | none => .error .numberOutOfRange
        | some n => .ok (.scalar (.number n), rest) := by
  unfold ofChars
  split
  iterate 7 exact absurd h (by decide)
  exact if_pos h

theorem not_isBlank_of_numeral (h : c = '-' ∨ c.isDigit = true) : isBlank c = false := by
  rw [isBlank, Bool.or_eq_false_iff, Bool.or_eq_false_iff, Bool.or_eq_false_iff]
  refine ⟨⟨⟨?_, ?_⟩, ?_⟩, ?_⟩
  all_goals
    rw [decide_eq_false_iff_not]
    rintro rfl
    exact absurd h (by decide)

/-- **A number is one token**, with anything behind it that may stand there, or it is refused. -/
theorem exists_all_writeNumber (x : Number) :
    ∃ o : Except Fault Number, ∀ rest, Delimited rest →
      all (writeNumber x ++ rest) = o.bind fun n => (all rest).map (.scalar (.number n) :: ·) := by
  have hspells := Numeral.spells_writeNumber x
  obtain ⟨o, ho⟩ := Numeral.exists_ofChars_append hspells
  obtain ⟨c, more, hcons, hc⟩ := hspells.exists_cons
  refine ⟨o.bind fun numeral =>
    match numeral.toNumber? with
    | none => .error .numberOutOfRange
    | some n => .ok n, fun rest hrest => ?_⟩
  have hblank := not_isBlank_of_numeral hc
  have hread := ho rest hrest
  have htoken := ofChars_of_numeral hc (more ++ rest)
  rw [hcons, List.cons_append] at hread ⊢
  rw [hread] at htoken
  cases o with
  | error fault => exact all_of_ofChars_error hblank htoken
  | ok numeral =>
    simp only [Except.map] at htoken
    cases hn : numeral.toNumber? with
    | none =>
      rw [hn] at htoken
      simp only [Except.bind, hn]
      exact all_of_ofChars_error hblank htoken
    | some n =>
      rw [hn] at htoken
      simp only [Except.bind, hn]
      exact all_of_ofChars hblank htoken

end Clipboard.Json.Token
