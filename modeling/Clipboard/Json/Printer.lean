import Clipboard.Json
import Clipboard.Text.Hex
import Clipboard.Text.Quoted
import Clipboard.Utf8

/-!
# Writing JSON

`write` puts a value down without blanks; names come in their order. A number that is not whole
keeps a point or an exponent: it is written positionally when its leading digit stands at most five
places behind the point and its last place at most sixteen before it, and with an exponent else. The
exponent has its sign always.

`describe` is the text in which a value is shown to a person.
-/

namespace Clipboard.Json

/-! ## Numbers -/

/-- The decimal digits of a natural number. -/
def decimal (n : Nat) : List Char := Nat.toDigits 10 n

/-- The digits with a point before the last `places` of them. -/
def withPoint (ds : List Char) (places : Nat) : List Char :=
  ds.take (ds.length - places) ++ '.' :: ds.drop (ds.length - places)

/-- A decimal that is not zero. The leading digit stands `point` places before the point. -/
def writeDecimal (d : Binary64.Decimal) : List Char :=
  let ds := decimal d.digits
  let point : Int := ds.length + d.exponent
  if 0 ≤ d.exponent ∧ point ≤ 16 then ds ++ List.replicate d.exponent.toNat '0' ++ ['.', '0']
  else if 0 < point ∧ point ≤ 16 then withPoint ds (-d.exponent).toNat
  else if -5 < point ∧ point ≤ 0 then ['0', '.'] ++ List.replicate (-point).toNat '0' ++ ds
  else
    let lead := if ds.length = 1 then ds else withPoint ds (ds.length - 1)
    let e := point - 1
    lead ++ ['e', if e < 0 then '-' else '+'] ++ decimal e.natAbs

def writeNumber : Number → List Char
  | .whole n => (if n < 0 then ['-'] else []) ++ decimal n.natAbs
  | .real x =>
    (if x.negative then ['-'] else [])
      ++ (if x.isZero then ['0', '.', '0'] else writeDecimal x.shortest)

/-! ## Strings -/

/-- A character as it stands in a string. -/
def escape (c : Char) : List Char :=
  match c with
  | '\x22' => ['\\', '\x22']
  | '\\' => ['\\', '\\']
  | '\x08' => ['\\', 'b']
  | '\x0c' => ['\\', 'f']
  | '\n' => ['\\', 'n']
  | '\r' => ['\\', 'r']
  | '\t' => ['\\', 't']
  | c => if c.toNat < 0x20 then ['\\', 'u', '0', '0'] ++ Hex.encodeByte (UInt8.ofNat c.toNat) else [c]

def writeString (s : String) : List Char := '\x22' :: s.toList.flatMap escape ++ ['\x22']

/-! ## Values -/

def joinWith (comma : List Char) : List (List Char) → List Char
  | [] => []
  | [t] => t
  | t :: ts => t ++ comma ++ joinWith comma ts

def write (v : Value) : List Char :=
  match v with
  | .null => "null".toList
  | .bool b => (if b then "true" else "false").toList
  | .number n => writeNumber n
  | .string s => writeString s
  | .array items => '[' :: joinWith [','] (items.attach.map (fun ⟨v, _⟩ => write v)) ++ [']']
  | .object members =>
    '\x7b' :: joinWith [','] (members.attach.map (fun ⟨(n, v), _⟩ => writeString n ++ ':' :: write v))
      ++ ['\x7d']
decreasing_by
  · simp_wf; have := List.sizeOf_lt_of_mem ‹_›; omega
  · simp_wf; have := List.sizeOf_lt_of_mem ‹_›; simp at this; omega

/-- The text of a value as a string. -/
def toText (v : Value) : String := String.ofList (write v)

/-- The text of a value in UTF-8. -/
def toBytes (v : Value) : Bytes := Utf8.encode (write v)

/-- A value with the name of its sort. -/
def describe (v : Value) : List Char :=
  match v with
  | .null => "Null".toList
  | .bool b => (if b then "Bool(true)" else "Bool(false)").toList
  | .number n => "Number(".toList ++ writeNumber n ++ [')']
  | .string s => "String(".toList ++ Text.quote s.toList ++ [')']
  | .array items =>
    "Array [".toList ++ joinWith [',', ' '] (items.attach.map (fun ⟨v, _⟩ => describe v)) ++ [']']
  | .object members =>
    "Object ".toList ++ '\x7b' ::
      joinWith [',', ' ']
        (members.attach.map (fun ⟨(n, v), _⟩ => Text.quote n.toList ++ ": ".toList ++ describe v))
      ++ ['\x7d']
decreasing_by
  · simp_wf; have := List.sizeOf_lt_of_mem ‹_›; omega
  · simp_wf; have := List.sizeOf_lt_of_mem ‹_›; simp at this; omega

end Clipboard.Json
