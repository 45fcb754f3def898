import Clipboard.Json.Numeral
import Clipboard.Text.Blank
import Clipboard.Text.Hex
import Clipboard.Utf16

/-!
# JSON tokens

A JSON text is cut into brackets, braces, commas, colons, strings and the values that have no
parts. Blanks are spaces, tabs, line feeds and carriage returns.

In a string a backslash begins an escape; four hexadecimal digits give a UTF-16 unit, and the two
halves of a pair must follow one another. Control characters may not stand in a string as they are.
-/

namespace Clipboard.Json

/-- A piece of a JSON text. -/
inductive Token where
  | openArray
  | closeArray
  | openObject
  | closeObject
  | comma
  | colon
  /-- A string: a value or the name of a member. -/
  | string (s : String)
  /-- A value that is neither a string nor has parts. -/
  | scalar (v : Value)
  deriving Repr

namespace Token

/-- A text and what is left behind it. -/
abbrev Cut (α : Type) := Except Fault (α × List Char)

/-- The unit that four hexadecimal digits give. -/
def unit? (a b c d : Char) : Option Nat := do
  return ((← Hex.value? a) * 16 + (← Hex.value? b)) * 256 + (← Hex.value? c) * 16 + (← Hex.value? d)

/-- The character of an escape of one letter. -/
def escaped? (c : Char) : Option Char :=
  match c with
  | '\x22' => some '\x22'
  | '\\' => some '\\'
  | '/' => some '/'
  | 'b' => some '\x08'
  | 'f' => some '\x0c'
  | 'n' => some '\n'
  | 'r' => some '\r'
  | 't' => some '\t'
  | _ => none

/-- A character put before a text that was cut off. -/
def consChar (c : Char) (cut : Cut (List Char)) : Cut (List Char) :=
  cut.map (fun (cs, rest) => (c :: cs, rest))

/-- The string up to the closing quote. -/
def stringOf (cs : List Char) : Cut (List Char) :=
  match cs with
  | [] => .error .unexpectedEnd
  | '\x22' :: rest => .ok ([], rest)
  | '\\' :: 'u' :: a :: b :: c :: d :: rest =>
    match unit? a b c d with
    | none => .error .invalidString
    | some high =>
      if Utf16.isLow high then .error .invalidString
      else if Utf16.isHigh high then
        match rest with
        | '\\' :: 'u' :: a :: b :: c :: d :: rest =>
          match unit? a b c d with
          | none => .error .invalidString
          | some low =>
            if Utf16.isLow low then consChar (Utf16.join high low) (stringOf rest)
            else .error .invalidString
        | _ => .error .invalidString
      else consChar (Char.ofNat high) (stringOf rest)
  | '\\' :: c :: rest =>
    match escaped? c with
    | none => .error .invalidString
    | some e => consChar e (stringOf rest)
  | c :: rest => if c.toNat < 0x20 then .error .invalidString else consChar c (stringOf rest)

theorem length_of_consChar {c : Char} {cut : Cut (List Char)} {s rest : List Char} {n : Nat}
    (h : consChar c cut = .ok (s, rest))
    (ih : ∀ s rest, cut = .ok (s, rest) → rest.length < n) : rest.length < n := by
  cases cut with
  | error fault => cases h
  | ok p =>
    simp only [consChar, Except.map, Except.ok.injEq, Prod.mk.injEq] at h
    exact ih p.1 rest (by rw [← h.2])

/-- The closing quote is taken off, so something is. -/
theorem length_of_stringOf {cs s rest : List Char} (h : stringOf cs = .ok (s, rest)) :
    rest.length < cs.length := by
  fun_induction stringOf cs generalizing s rest with
  | case1 => cases h
  | case2 rest' => cases h; simp
  | case3 => cases h
  | case4 => cases h
  | case5 => cases h
  | case6 _ _ _ _ _ _ _ _ _ _ _ _ _ _ _ _ ih =>
    have := length_of_consChar h (fun s r hs => ih hs)
    simp only [List.length_cons]; omega
  | case7 => cases h
  | case8 => cases h
  | case9 _ _ _ _ _ _ _ _ _ ih =>
    have := length_of_consChar h (fun s r hs => ih hs)
    simp only [List.length_cons]; omega
  | case10 => cases h
  | case11 _ _ _ _ _ ih =>
    have := length_of_consChar h (fun s r hs => ih hs)
    simp only [List.length_cons]; omega
  | case12 => cases h
  | case13 _ _ _ _ _ _ ih =>
    have := length_of_consChar h (fun s r hs => ih hs)
    simp only [List.length_cons]; omega

def isBlank (c : Char) : Bool := c = ' ' || c = '\t' || c = '\n' || c = '\r'

/-- The words and the values they stand for. -/
def keywords : List (List Char × Value) :=
  [("null".toList, .null), ("true".toList, .bool true), ("false".toList, .bool false)]

/-- The token at the beginning of a text that does not begin with a blank. -/
def ofChars (c : Char) (rest : List Char) : Cut Token :=
  match c with
  | '[' => .ok (.openArray, rest)
  | ']' => .ok (.closeArray, rest)
  | '\x7b' => .ok (.openObject, rest)
  | '\x7d' => .ok (.closeObject, rest)
  | ',' => .ok (.comma, rest)
  | ':' => .ok (.colon, rest)
  | '\x22' => (stringOf rest).map (fun (s, rest) => (.string (String.ofList s), rest))
  | c =>
    if c = '-' ∨ c.isDigit then
      match Numeral.ofChars (c :: rest) with
      | .error fault => .error fault
      | .ok (numeral, rest) =>
        match numeral.toNumber? with
        | none => .error .numberOutOfRange
        | some n => .ok (.scalar (.number n), rest)
    else
      match keywords.findSome? (fun (word, v) => (Text.after? word (c :: rest)).map (v, ·)) with
      | none => .error .unexpected
      | some (v, rest) => .ok (.scalar v, rest)

theorem length_of_ofChars {c : Char} {cs rest : List Char} {t : Token}
    (h : ofChars c cs = .ok (t, rest)) : rest.length ≤ cs.length := by
  unfold ofChars at h
  split at h
  iterate 6 (cases h; exact Nat.le_refl _)
  · cases hs : stringOf cs with
    | error fault => simp [hs, Except.map] at h
    | ok p =>
      simp only [hs, Except.map, Except.ok.injEq, Prod.mk.injEq] at h
      rw [← h.2]
      exact Nat.le_of_lt (length_of_stringOf (s := p.1) (by rw [hs]))
  · split at h
    · split at h
      · cases h
      · next numeral rest' hn =>
        split at h
        · cases h
        · cases h
          have := Numeral.length_of_ofChars hn
          simp only [List.length_cons] at this
          omega
    · split at h
      · cases h
      · next v rest' hf =>
        cases h
        obtain ⟨⟨word, w⟩, hmem, hword⟩ := List.exists_of_findSome?_eq_some hf
        cases hr : Text.after? word (c :: cs) with
        | none => simp [hr] at hword
        | some r =>
          simp only [hr, Option.map_some, Option.some.injEq, Prod.mk.injEq] at hword
          rw [hword.2] at hr
          have hlen := congrArg List.length (Text.after?_eq_some_iff.mp hr)
          have hpos : word ≠ [] := by
            have : ∀ p ∈ keywords, p.1 ≠ [] := by simp [keywords]
            exact this _ hmem
          have := List.length_pos_iff.mpr hpos
          simp only [List.length_cons, List.length_append] at hlen
          omega

def all (cs : List Char) : Except Fault (List Token) :=
  match cs with
  | [] => .ok []
  | c :: rest =>
    if isBlank c then all rest
    else
      match _h : ofChars c rest with
      | .error fault => .error fault
      | .ok (t, rest) =>
        match all rest with
        | .error fault => .error fault
        | .ok ts => .ok (t :: ts)
termination_by cs.length
decreasing_by
  · simp
  · have := length_of_ofChars _h
    simp only [List.length_cons]; omega

end Token

end Clipboard.Json
