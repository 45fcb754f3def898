import Clipboard.Text.Blank

/-!
# Representations

The shapes in which an in-process value can be held: as characters, as bytes, or as something
else. A flavor names its representation in the parameter `class`.
-/

namespace Clipboard

/-- The shape of a value. -/
inductive Representation where
  | charArray
  | string
  | charBuffer
  | reader
  | byteArray
  | byteBuffer
  | stream
  | fileList
  | image
  | serializable
  | remote
  deriving DecidableEq, Repr

namespace Representation

def name : Representation → String
  | .charArray => "char-array"
  | .string => "string"
  | .charBuffer => "char-buffer"
  | .reader => "reader"
  | .byteArray => "byte-array"
  | .byteBuffer => "byte-buffer"
  | .stream => "stream"
  | .fileList => "file-list"
  | .image => "image"
  | .serializable => "serializable"
  | .remote => "remote"

/-- The representation of a lower-case name; three have a second one. -/
def ofLabel? (label : String) : Option Representation :=
  match label with
  | "char-array" | "chars" => some .charArray
  | "string" => some .string
  | "char-buffer" => some .charBuffer
  | "reader" => some .reader
  | "byte-array" | "bytes" => some .byteArray
  | "byte-buffer" => some .byteBuffer
  | "stream" | "input-stream" => some .stream
  | "file-list" => some .fileList
  | "image" => some .image
  | "serializable" => some .serializable
  | "remote" => some .remote
  | _ => none

/-- The representation of a name, without regard to white space around it and letter case. -/
def ofName? (name : String) : Option Representation :=
  ofLabel? (String.ofList (Text.lower (Text.trim name.toList)))

theorem ofName?_name (rep : Representation) : ofName? rep.name = some rep := by
  cases rep <;> decide +kernel

def isDecodedText : Representation → Bool
  | .charArray | .string | .charBuffer | .reader => true
  | _ => false

def isEncodedText : Representation → Bool
  | .byteArray | .byteBuffer | .stream => true
  | _ => false

def isSerializable : Representation → Bool
  | .string | .charArray | .byteArray | .fileList | .serializable => true
  | _ => false

/-- The place in the order of declaration. -/
def rank : Representation → Nat := Representation.ctorIdx

instance : Ord Representation := ⟨fun a b => compare a.rank b.rank⟩

/-- No representation is text both as characters and as bytes. -/
theorem not_isEncodedText_of_isDecodedText {rep : Representation} (h : rep.isDecodedText = true) :
    rep.isEncodedText = false := by
  cases rep <;> simp_all [isDecodedText, isEncodedText]

end Representation

end Clipboard
