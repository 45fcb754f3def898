import Clipboard.Dictionary
import Clipboard.Text.Blank

/-!
# MIME types

A MIME type is a primary type, a subtype and parameters. Written out it is
`primary/subtype; name=value; …`, a value that is no token standing between quotes.

Reading cuts the text at the semicolons outside quotes (`sections`); a backslash inside quotes
takes away the meaning of the next character. Types and names are put in lower case, values keep
their letters. Empty sections are skipped, and of two parameters of one name the later counts.

The parameters are a dictionary, so that types that mean the same are equal values.
-/

namespace Clipboard

abbrev Params := Dictionary String

/-- A MIME type. -/
structure MimeType where
  primary : String
  subtype : String
  params : Params
  deriving DecidableEq, Repr

namespace MimeType

/-- The characters of a token: graphic ASCII characters but for the separators. -/
def isTokenChar (c : Char) : Bool :=
  0x21 ≤ c.toNat && c.toNat ≤ 0x7E && !"()<>@,;:\\\x22/[]?=".toList.contains c

/-- Whether all characters are those of a token. -/
def isToken (cs : List Char) : Bool := cs.all isTokenChar

/-! ## Reading -/

/-- Where the cutting stands with respect to quotes. -/
inductive Quoting where
  | outside
  | inside
  | escaped
  deriving DecidableEq, Repr

/-- The sections between the semicolons outside quotes; the first continues the one begun. -/
def sectionsFrom (q : Quoting) : List Char → List (List Char)
  | [] => [[]]
  | c :: cs =>
    let extend (rest : List (List Char)) : List (List Char) :=
      match rest with
      | [] => [[c]]
      | s :: ss => (c :: s) :: ss
    match q with
    | .escaped => extend (sectionsFrom .inside cs)
    | .inside =>
      if c = '\\' then extend (sectionsFrom .escaped cs)
      else if c = '\x22' then extend (sectionsFrom .outside cs)
      else extend (sectionsFrom .inside cs)
    | .outside =>
      if c = '\x22' then extend (sectionsFrom .inside cs)
      else if c = ';' then [] :: sectionsFrom .outside cs
      else extend (sectionsFrom .outside cs)

def sections (cs : List Char) : List (List Char) := sectionsFrom .outside cs

/-- Every quote behind a backslash loses the backslash. -/
def unescape : List Char → List Char
  | [] => []
  | '\\' :: '\x22' :: cs => '\x22' :: unescape cs
  | c :: cs => c :: unescape cs

/-- A value between quotes, which must be two, is taken from between them. -/
def unquote (value : List Char) : List Char :=
  match value with
  | '\x22' :: rest =>
    match rest.getLast? with
    | some '\x22' => unescape rest.dropLast
    | _ => value
  | _ => value

/-- The parameters of the sections, added to those before. -/
def paramsFrom (ps : Params) : List (List Char) → Option Params
  | [] => some ps
  | part :: parts =>
    if (Text.trim part).isEmpty then paramsFrom ps parts
    else do
      let (name, value) ← Text.splitAtFirst '=' part
      let name := Text.lower (Text.trim name)
      if name.isEmpty then none
      else
        paramsFrom
          (Dictionary.insert (String.ofList name) (String.ofList (unquote (Text.trim value))) ps)
          parts

def ofChars? (cs : List Char) : Option MimeType :=
  match sections cs with
  | [] => none
  | base :: parts => do
    let (primary, subtype) ← Text.splitAtFirst '/' base
    let primary := Text.lower (Text.trim primary)
    let subtype := Text.lower (Text.trim subtype)
    if primary.isEmpty || subtype.isEmpty || !isToken primary || !isToken subtype then none
    else
      let params ← paramsFrom [] parts
      return { primary := String.ofList primary, subtype := String.ofList subtype, params }

def parse? (s : String) : Option MimeType := ofChars? s.toList

/-! ## Writing -/

/-- The primary type and the subtype. -/
def base (m : MimeType) : String := m.primary ++ "/" ++ m.subtype

def param? (m : MimeType) (name : String) : Option String := m.params.find? name

/-- A value as it stands behind the equals sign. -/
def showValue (value : String) : String :=
  if !value.isEmpty && isToken value.toList then value else "\x22" ++ value ++ "\x22"

/-- A parameter with the semicolon before it. -/
def showParam (p : String × String) : String := "; " ++ p.1 ++ "=" ++ showValue p.2

def toString (m : MimeType) : String := m.base ++ String.join (m.params.map showParam)

instance : ToString MimeType := ⟨MimeType.toString⟩

/-- Primary types, then subtypes, then parameters one by one. -/
def order (a b : MimeType) : Ordering :=
  (compare a.primary b.primary).then <|
    (compare a.subtype b.subtype).then <|
      compareParams a.params b.params
where
  compareParams : Params → Params → Ordering
    | [], [] => .eq
    | [], _ :: _ => .lt
    | _ :: _, [] => .gt
    | (m, v) :: ps, (n, w) :: qs =>
      (compare m n).then ((compare v w).then (compareParams ps qs))

end MimeType

end Clipboard
