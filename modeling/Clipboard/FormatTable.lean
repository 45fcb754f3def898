import Clipboard.Error
import Clipboard.Flavor.Standard

/-!
# The table of formats

The table holds the registered formats and two relations between flavors and formats, each in the
order of preference: the formats that a flavor can be exported as, and the flavors that a format can
be imported as. They are independent of one another, and a number may stand in them that no format
is registered under.

Registering a format under a number that is taken replaces the old format and drops all its
mappings, as they were derived from properties that no longer hold.
-/

namespace Clipboard

/-- Keys, each with some values in the order of preference. -/
abbrev Preferences (α β : Type) := List (α × List β)

namespace Preferences

variable {α β : Type} [DecidableEq α] [DecidableEq β]

def get (ps : Preferences α β) (a : α) : List β := (ps.lookup a).getD []

/-- A value added behind those of a key, unless it is among them. -/
def add (a : α) (b : β) : Preferences α β → Preferences α β
  | [] => [(a, [b])]
  | (k, bs) :: ps =>
    if k = a then (k, if b ∈ bs then bs else bs ++ [b]) :: ps else (k, bs) :: add a b ps

def eraseKey (ps : Preferences α β) (a : α) : Preferences α β := ps.filter (fun p => p.1 ≠ a)

/-- Everything but a value; a key that has no other goes with it. -/
def eraseValue (ps : Preferences α β) (b : β) : Preferences α β :=
  (ps.map (fun p => (p.1, p.2.filter (· ≠ b)))).filter (fun p => !p.2.isEmpty)

end Preferences

/-- The registered formats and their mappings. -/
structure FormatTable where
  /-- The formats in the order of their numbers. -/
  natives : List NativeFormat
  /-- The number that each name is registered under. -/
  names : Dictionary FormatId := .ofList (natives.map (fun n => (n.name, n.id)))
  formatsOf : Preferences Flavor FormatId
  flavorsOf : Preferences FormatId Flavor
  deriving Repr

namespace FormatTable

def empty : FormatTable := { natives := [], names := [], formatsOf := [], flavorsOf := [] }

/-! ## Questions -/

def native? (t : FormatTable) (id : FormatId) : Option NativeFormat :=
  t.natives.find? (fun n => n.id = id)

/-- The format registered under a number, or the error that there is none. -/
def require (t : FormatTable) (id : FormatId) : Except Error NativeFormat :=
  match t.native? id with
  | some native => .ok native
  | none => .error (.unknownFormat id)

/-- The number that a name is registered under. -/
def formatForName? (t : FormatTable) (name : String) : Option FormatId :=
  t.names.find? name

/-- The formats of a flavor, the preferred one first. -/
def formatsForFlavor (t : FormatTable) (f : Flavor) : List FormatId := t.formatsOf.get f

/-- The flavors of a format, the preferred one first. -/
def flavorsForFormat (t : FormatTable) (id : FormatId) : List Flavor := t.flavorsOf.get id

def textProperties? (t : FormatTable) (id : FormatId) : Option TextProperties :=
  (t.native? id).bind NativeFormat.text

/-- Whether the format is one of text. -/
def isText (t : FormatTable) (id : FormatId) : Bool := (t.textProperties? id).isSome

def kind? (t : FormatTable) (id : FormatId) : Option FormatKind :=
  (t.native? id).map NativeFormat.kind

/-- Whether the format is the platform's list of files. -/
def isFileList (t : FormatTable) (id : FormatId) : Bool := t.kind? id = some .fileList

/-- Whether the format is lines of URIs. -/
def isUriList (t : FormatTable) (id : FormatId) : Bool := t.kind? id = some .uriList

/-- Whether the format is one of images. -/
def isImage (t : FormatTable) (id : FormatId) : Bool := t.kind? id = some .image

/-- Whether the source of the data names the charset. -/
def isLocaleDependent (t : FormatTable) (id : FormatId) : Bool :=
  match t.native? id with
  | some native => native.localeDependent
  | none => false

/-! ## Changes -/

/-- A format put in its place among the others, instead of one with its number. -/
def place (native : NativeFormat) : List NativeFormat → List NativeFormat
  | [] => [native]
  | n :: ns =>
    if native.id.number < n.id.number then native :: n :: ns
    else if native.id = n.id then native :: ns
    else n :: place native ns

/-- The table without the mappings of a format. -/
def eraseMappings (t : FormatTable) (id : FormatId) : FormatTable :=
  { t with formatsOf := t.formatsOf.eraseValue id, flavorsOf := t.flavorsOf.eraseKey id }

/-- The table with one more format. A name belongs to one format only. -/
def register (t : FormatTable) (native : NativeFormat) : Except Error FormatTable :=
  match (t.formatForName? native.name).filter (· ≠ native.id) with
  | some owner => .error (.invalidData (.nameTaken native.name owner))
  | none =>
    let t := match t.native? native.id with
      | some old => { t.eraseMappings native.id with names := t.names.erase old.name }
      | none => t
    .ok { t with
      natives := place native t.natives
      names := t.names.insert native.name native.id }

/-- The flavor can be exported as the format. -/
def addFormatForFlavor (t : FormatTable) (f : Flavor) (id : FormatId) : FormatTable :=
  { t with formatsOf := t.formatsOf.add f id }

/-- The format can be imported as the flavor. -/
def addFlavorForFormat (t : FormatTable) (id : FormatId) (f : Flavor) : FormatTable :=
  { t with flavorsOf := t.flavorsOf.add id f }

/-- The flavor and the format can be turned into each other. -/
def addMapping (t : FormatTable) (f : Flavor) (id : FormatId) : FormatTable :=
  (t.addFormatForFlavor f id).addFlavorForFormat id f

/-- Mappings of several flavors to one format. -/
def addMappings (t : FormatTable) (fs : List Flavor) (id : FormatId) : FormatTable :=
  fs.foldl (fun t f => t.addMapping f id) t

/-- Mappings of all the flavors of a text: first those in the format's own charset, then those in
each of the others. -/
def addTextMappings (t : FormatTable) (id : FormatId) (subtype : String) (charsets : List String) :
    FormatTable :=
  let own := (t.textProperties? id).map TextProperties.charset
  t.addMappings
    (Flavor.textFlavors subtype own ++ charsets.flatMap (Flavor.encodedTextFlavors subtype)) id

end FormatTable

end Clipboard
