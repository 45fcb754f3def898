import Clipboard.Config
import Clipboard.Transfer.Engine

/-!
# From configurations to engines

The formats are registered one after the other and their flavors mapped to them in order. For a text
format a flavor of text may stand for all the flavors of its subtype: those in the standard charsets
too if the subtype takes a charset, and for plain text also the string flavor.
-/

namespace Clipboard

/-- Why no table is made. -/
inductive BuildFault where
  | terminators (fault : InvalidTerminators)
  | registration (name : String) (fault : Error)
  | flavor (text : String)
  deriving Repr

/-- The wording of a fault, the most general part first. -/
def BuildFault.parts : BuildFault → List String
  | terminators fault => [fault.message]
  | registration name fault => ["Failed to register format " ++ name, fault.message]
  | flavor text => [(Error.invalidFlavor text).message]

namespace FormatEntry

/-- The properties of the text, if it is a text format. -/
def textProperties? (e : FormatEntry) (defaultCharset : String) :
    Except InvalidTerminators (Option TextProperties) :=
  match e.text with
  | none => .ok none
  | some text =>
    match (text.terminators.map TerminatorCount.resolve).getD (.ok 0) with
    | .error fault => .error fault
    | .ok n => .ok (some (TextProperties.register text.charset text.eoln n defaultCharset))

def native? (e : FormatEntry) (defaultCharset : String) : Except BuildFault NativeFormat :=
  match e.textProperties? defaultCharset with
  | .error fault => .error (.terminators fault)
  | .ok text =>
    .ok { id := e.id, name := e.name, kind := e.kind, localeDependent := e.localeDependent, text }

def flavors? (e : FormatEntry) : Except BuildFault (List Flavor) :=
  e.flavors.mapM (fun text =>
    match Flavor.parse? text with
    | some f => .ok f
    | none => .error (.flavor text))

end FormatEntry

namespace Config

/-- The charset of text that names none, by its canonical name. -/
def canonicalDefault (c : Config) : String := Charset.canonicalName c.defaultCharset

/-- Whether a flavor stands for all those of its subtype. -/
def expands (c : Config) (e : FormatEntry) (f : Flavor) : Bool :=
  c.expandTextFlavors && e.text.isSome && f.mime.primary = "text"

/-- The table with the flavors that a flavor of text stands for. -/
def addExpansion (c : Config) (t : FormatTable) (id : FormatId) (f : Flavor) :
    Memoized FormatTable := do
  let t := if f.mime.subtype = "plain" then t.addMapping Flavor.string id else t
  let takesCharset ← TextClassifier.supportsCharset f
  let charsets := if takesCharset then Ranking.standardCharsets c.canonicalDefault else []
  return t.addTextMappings id f.mime.subtype charsets

/-- The table with a flavor mapped to a format. -/
def addFlavor (c : Config) (e : FormatEntry) (t : FormatTable) (f : Flavor) :
    Memoized FormatTable := do
  let t ← if c.expands e f then c.addExpansion t e.id f else pure t
  return t.addMapping f e.id

/-- The table with flavors mapped to a format, one after the other. -/
def addFlavors (c : Config) (e : FormatEntry) (t : FormatTable) :
    List Flavor → Memoized FormatTable
  | [] => pure t
  | f :: fs => do
    let t ← c.addFlavor e t f
    c.addFlavors e t fs

/-- The table with one more format, and what was decided about subtypes. -/
def addEntry (c : Config) (t : FormatTable) (memo : SubtypeMemo) (e : FormatEntry) :
    Except BuildFault (FormatTable × SubtypeMemo) := do
  let native ← e.native? c.canonicalDefault
  let t ← match t.register native with
    | .ok t => .ok t
    | .error fault => .error (BuildFault.registration e.name fault)
  let fs ← e.flavors?
  return (c.addFlavors e t fs).run memo

def addEntries (c : Config) (t : FormatTable) (memo : SubtypeMemo) :
    List FormatEntry → Except BuildFault FormatTable
  | [] => .ok t
  | e :: es =>
    match c.addEntry t memo e with
    | .error fault => .error fault
    | .ok (t, memo) => c.addEntries t memo es

/-- The table of formats that the configuration describes. -/
def table (c : Config) : Except BuildFault FormatTable :=
  c.addEntries .empty .empty c.formats

def engine (c : Config) (host : Host) : Except BuildFault Engine :=
  match c.table with
  | .error fault => .error fault
  | .ok t => .ok ((Engine.new host t c.defaultCharset).withCacheProperties c.properties)

end Config

end Clipboard
