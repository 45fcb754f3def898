import Clipboard.Mime

/-!
# Native formats

A native format is a number that the platform's clipboard knows. What it is about a format that
matters here is registered beforehand: its name, how its bytes are laid out, and for a text format
the charset, the line end and the number of zero bytes behind the text.
-/

namespace Clipboard

/-- The number of a native format. -/
structure FormatId where
  /-- The number, below `2 ^ 64`. -/
  number : Nat
  deriving DecidableEq, Repr

namespace FormatId

instance : Ord FormatId := ⟨fun a b => compare a.number b.number⟩

instance : ToString FormatId := ⟨fun id => toString id.number⟩

/-! The numbers of the common formats. -/

/-- Text in the system's code page. -/
def text : FormatId := ⟨1⟩
/-- Text in the console's code page. -/
def oemText : FormatId := ⟨7⟩
/-- A bitmap without a file header. -/
def dib : FormatId := ⟨8⟩
/-- Text in UTF-16. -/
def unicodeText : FormatId := ⟨13⟩
/-- A list of dropped files. -/
def dropFiles : FormatId := ⟨15⟩
/-- The number of a locale. -/
def locale : FormatId := ⟨16⟩
/-- A fragment of HTML. -/
def html : FormatId := ⟨0xD010⟩
/-- A PNG file. -/
def png : FormatId := ⟨0xD011⟩
def richText : FormatId := ⟨0xD012⟩
/-- Lines of URIs. -/
def uriList : FormatId := ⟨0xD015⟩

end FormatId

/-- How the bytes of a format are laid out. -/
inductive FormatKind where
  | plain
  /-- The platform's structure for a list of files. -/
  | fileList
  | uriList
  | image
  deriving DecidableEq, Repr

namespace FormatKind

/-- The name of a kind. -/
def name : FormatKind → String
  | .plain => "plain"
  | .fileList => "file-list"
  | .uriList => "uri-list"
  | .image => "image"

/-- The kind of a name. -/
def ofName? (name : String) : Option FormatKind :=
  match name with
  | "plain" => some .plain
  | "file-list" => some .fileList
  | "uri-list" => some .uriList
  | "image" => some .image
  | _ => none

theorem ofName?_name (kind : FormatKind) : ofName? kind.name = some kind := by
  cases kind <;> rfl

end FormatKind

/-- What distinguishes the bytes of a text format from a text. -/
structure TextProperties where
  charset : String
  /-- What ends a line, if it is not a line feed. -/
  eoln : Option String
  /-- The number of zero bytes behind the text. -/
  terminators : Nat
  deriving DecidableEq, Repr

/-- The properties as they are registered: a charset that is absent or empty is the default one,
and a line end that is empty or a line feed is none. -/
def TextProperties.register (charset eoln : Option String) (terminators : Nat)
    (defaultCharset : String) : TextProperties :=
  { charset := (charset.filter (· ≠ "")).getD defaultCharset
    eoln := eoln.filter (fun e => e ≠ "" && e ≠ "\n")
    terminators := terminators }

/-- A registered format. -/
structure NativeFormat where
  id : FormatId
  name : String
  kind : FormatKind
  /-- Whether the source of the data names the charset. -/
  localeDependent : Bool
  text : Option TextProperties
  deriving DecidableEq, Repr

namespace NativeFormat

/-- Whether it is a text format. -/
def isText (native : NativeFormat) : Bool := native.text.isSome

/-- The charset that the name gives if it is a MIME type. -/
def nameCharset? (native : NativeFormat) : Option String := do
  (← MimeType.parse? native.name).param? "charset"

/-- The charset of the URIs of a list of URIs. -/
def uriCharset (native : NativeFormat) : String := native.nameCharset?.getD "UTF-8"

end NativeFormat

end Clipboard
