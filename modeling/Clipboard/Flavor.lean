import Clipboard.Charset
import Clipboard.Mime
import Clipboard.Representation

/-!
# Flavors

A flavor describes an in-process value: its MIME type, and the representation the value has. In a
flavor's text the representation stands in the parameter `class`; a text without one means a byte
stream.

The MIME type of a flavor holds no parameter `class`, and the charset it names, if any, stands
there under its canonical name (`make`), so that flavors that mean the same are equal.
-/

namespace Clipboard

/-- A MIME type and a representation. -/
structure Flavor where
  mime : MimeType
  representation : Representation
  deriving DecidableEq, Repr

namespace Flavor

def classParam : String := "class"

def charsetParam : String := "charset"

/-- A charset parameter under the canonical name, any other parameter as it is. -/
def canonicalValue (name value : String) : String :=
  if name = charsetParam then Charset.canonicalName value else value

/-- The flavor of a MIME type and a representation. -/
def make (mime : MimeType) (representation : Representation) : Flavor :=
  { mime := { mime with params := (mime.params.erase classParam).mapValues canonicalValue }
    representation := representation }

def parse? (s : String) : Option Flavor := do
  let mime ← MimeType.parse? s
  match mime.param? classParam with
  | none => return make mime .stream
  | some name => return make mime (← Representation.ofName? name)

def param? (f : Flavor) (name : String) : Option String := f.mime.param? name

def charset? (f : Flavor) : Option String := f.param? charsetParam

def toString (f : Flavor) : String :=
  f.mime.toString ++ "; " ++ classParam ++ "=" ++ f.representation.name

instance : ToString Flavor := ⟨Flavor.toString⟩

/-- The same MIME type with another representation. -/
def withRepresentation (f : Flavor) (rep : Representation) : Flavor :=
  { f with representation := rep }

/-- Whether the MIME type is the one that `base` spells, up to letter case. -/
def hasBase (f : Flavor) (base : String) : Bool :=
  match Text.splitAtFirst '/' base.toList with
  | none => false
  | some (primary, subtype) =>
    Text.sameLetters (Text.trim primary) f.mime.primary.toList
      && Text.sameLetters (Text.trim subtype) f.mime.subtype.toList

def isImage (f : Flavor) : Bool := f.representation = .image

/-- By MIME type, then by representation. -/
def order (a b : Flavor) : Ordering :=
  (a.mime.order b.mime).then (compare a.representation b.representation)

end Flavor

end Clipboard
