import Clipboard.Config
import Clipboard.Error

/-!
# Validation

A configuration makes sense if the charsets and flavors it names are known, the numbers of zero
bytes are numbers, no two formats share a number or a name, and no name is empty. The first fault is
reported: those of the configuration itself first, then format by format.
-/

namespace Clipboard

/-- What is wrong with a configuration. -/
inductive ConfigFault where
  | defaultCharset (name : String)
  | duplicateId (id : FormatId)
  | emptyName (id : FormatId)
  | duplicateName (name : String)
  | flavor (format text : String)
  | charset (format name : String)
  | terminators (format : String) (fault : InvalidTerminators)
  deriving DecidableEq, Repr

namespace ConfigFault

/-- The wording of a fault, the most general part first. -/
def parts : ConfigFault → List String
  | defaultCharset name => ["Unsupported default charset: " ++ name]
  | duplicateId id => ["Duplicate format id: " ++ toString id]
  | emptyName id => ["Format " ++ toString id ++ " has an empty name"]
  | duplicateName name => ["Duplicate format name: " ++ name]
  | flavor format text =>
    ["Invalid flavor for format " ++ format ++ ": " ++ text, (Error.invalidFlavor text).message]
  | charset format name => ["Unsupported charset for format " ++ format ++ ": " ++ name]
  | terminators format fault => ["Format " ++ format, fault.message]

end ConfigFault

/-- A check, passed if nothing is wrong. -/
abbrev Check := Except ConfigFault Unit

/-- A check that is passed if something holds. -/
def Check.unless (holds : Bool) (fault : ConfigFault) : Check :=
  if holds then .ok () else .error fault

namespace FormatEntry

def checkFlavors (e : FormatEntry) : Check :=
  e.flavors.forM (fun text => Check.unless (Flavor.parse? text).isSome (.flavor e.name text))

/-- The charset, unless it is left empty, is supported, and the zero bytes are a number. -/
def checkText (e : FormatEntry) : Check :=
  match e.text with
  | none => .ok ()
  | some text => do
    if let some name := text.charset.filter (· ≠ "") then
      Check.unless (Charset.isSupported name) (.charset e.name name)
    if let some terminators := text.terminators then
      match terminators.resolve with
      | .ok _ => .ok ()
      | .error fault => .error (.terminators e.name fault)

/-- A format makes sense behind others. -/
def check (earlier : List FormatEntry) (e : FormatEntry) : Check := do
  Check.unless (earlier.all (·.id ≠ e.id)) (.duplicateId e.id)
  Check.unless (e.name ≠ "") (.emptyName e.id)
  Check.unless (earlier.all (·.name ≠ e.name)) (.duplicateName e.name)
  e.checkFlavors
  e.checkText

/-- All formats make sense, one behind the other. -/
def checkAll (earlier : List FormatEntry) : List FormatEntry → Check
  | [] => .ok ()
  | e :: es => do
    e.check earlier
    checkAll (earlier ++ [e]) es

end FormatEntry

def Config.validate (c : Config) : Check := do
  Check.unless (Charset.isSupported c.defaultCharset) (.defaultCharset c.defaultCharset)
  FormatEntry.checkAll [] c.formats

end Clipboard
