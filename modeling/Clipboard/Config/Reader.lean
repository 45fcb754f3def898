import Clipboard.Config
import Clipboard.Config.Document
import Clipboard.Toml.Reader

/-!
# Reading configurations

Fields that are not known are ignored. Only the number and the name of a format must be given.
-/

namespace Clipboard

def TerminatorCount.ofDocument? : Document → Option TerminatorCount
  | .text s => some (.text s)
  | d => (d.integerIn? (-(Int.pow 2 63)) (Int.pow 2 63 - 1)).map .count

def TextEntry.ofDocument? (dialect : Dialect) (d : Document) : Option TextEntry := do
  let fields ← d.fields? dialect ["charset", "eoln", "terminators"]
  return {
    charset := ← Document.optional? fields "charset" (Document.nullable? Document.text?) none
    eoln := ← Document.optional? fields "eoln" (Document.nullable? Document.text?) none
    terminators :=
      ← Document.optional? fields "terminators" (Document.nullable? TerminatorCount.ofDocument?) none }

/-- A kind: its name, or a record of the name and nothing else. -/
def FormatKind.ofDocument? (dialect : Dialect) : Document → Option FormatKind
  | .text name => ofName? name
  | .record [(name, d)] => if dialect.isNothing d then ofName? name else none
  | _ => none

def FormatId.ofDocument? (d : Document) : Option FormatId :=
  (d.integerIn? 0 (Int.pow 2 64 - 1)).map (fun n => ⟨n.toNat⟩)

def FormatEntry.ofDocument? (dialect : Dialect) (d : Document) : Option FormatEntry := do
  let fields ← d.fields? dialect ["id", "name", "kind", "locale_dependent", "flavors", "text"]
  return {
    id := ← Document.required? fields "id" FormatId.ofDocument?
    name := ← Document.required? fields "name" Document.text?
    kind := ← Document.optional? fields "kind" (FormatKind.ofDocument? dialect) .plain
    localeDependent := ← Document.optional? fields "locale_dependent" Document.bool? false
    flavors := ← Document.optional? fields "flavors" (Document.list? Document.text?) []
    text :=
      ← Document.optional? fields "text" (Document.nullable? (TextEntry.ofDocument? dialect)) none }

namespace Config

def propertiesOf? : Document → Option (Dictionary String)
  | .record fields => do
    let properties ← fields.mapM (fun (name, d) => (Document.text? d).map (Prod.mk name))
    return Dictionary.ofList properties
  | _ => none

def ofDocument? (dialect : Dialect) (d : Document) : Option Config := do
  let fields ←
    d.fields? dialect ["default_charset", "expand_text_flavors", "properties", "formats"]
  return {
    defaultCharset :=
      ← Document.optional? fields "default_charset" Document.text? default.defaultCharset
    expandTextFlavors :=
      ← Document.optional? fields "expand_text_flavors" Document.bool? default.expandTextFlavors
    properties := ← Document.optional? fields "properties" propertiesOf? default.properties
    formats :=
      ← Document.optional? fields "formats" (Document.list? (FormatEntry.ofDocument? dialect))
        default.formats }

/-- The configuration that a JSON value describes. -/
def ofJson? (v : Json.Value) : Option Config := ofDocument? .json (.ofJson v)

/-- The configuration that a TOML text describes. -/
def ofToml? (text : List Char) : Option Config := do
  ofDocument? .toml (.ofToml (← Toml.document? text))

end Config

end Clipboard
