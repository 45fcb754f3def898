import Clipboard.Error
import Clipboard.LineEnd

/-!
# Native text

The bytes of a native text format differ from a text in process in three ways: the charset, the
line end, and the zero bytes behind the text. `encode` and `decode` take a whole text from one to
the other; reading one piece by piece is the matter of `Clipboard.NativeText.Reencoder`.

`decode` looks for the terminator only at offsets that are multiples of its length, and without one
it drops the bytes of an incomplete unit (`terminatedLength`).
-/

namespace Clipboard.NativeText

/-- The number of bytes before the terminator: a run of `n` zero bytes at a multiple of `n`. -/
def terminatedLength (n : Nat) (bytes : Bytes) : Nat :=
  if _h : n = 0 ∨ bytes = [] then bytes.length
  else
    let unit := bytes.take n
    if unit.length < n ∨ unit.all (· = 0) then 0
    else n + terminatedLength n (bytes.drop n)
termination_by bytes.length
decreasing_by
  have := List.length_pos_iff.mpr (not_or.mp _h).2
  have := (not_or.mp _h).1
  simp only [List.length_drop]
  omega

def untilTerminator (n : Nat) (bytes : Bytes) : Bytes := bytes.take (terminatedLength n bytes)

/-- The text with the line ends of the format. -/
def toNativeLines (props : TextProperties) (text : List Char) : List Char :=
  match props.eoln with
  | some eoln => LineEnd.toNative eoln.toList text
  | none => text

/-- The text with line feeds for the line ends of the format. -/
def fromNativeLines (props : TextProperties) (text : List Char) : List Char :=
  match props.eoln with
  | some eoln => LineEnd.fromNative eoln.toList text
  | none => text

/-- The bytes of a text, with the terminator. -/
def encode (props : TextProperties) (text : List Char) : Except Error Bytes :=
  match Charset.require props.charset with
  | .error e => .error e
  | .ok charset =>
    .ok (charset.encode (toNativeLines props text) ++ List.replicate props.terminators 0)

/-- The text of bytes, in another charset than the format's if one is given. -/
def decode (props : TextProperties) (charset? : Option String) (bytes : Bytes) :
    Except Error (List Char) :=
  match Charset.require (charset?.getD props.charset) with
  | .error e => .error e
  | .ok charset =>
    .ok (fromNativeLines props (charset.decode (untilTerminator props.terminators bytes)))

end Clipboard.NativeText
