import Clipboard.CommandLine.Help
import Clipboard.Config.File
import Clipboard.Config.Table
import Clipboard.Config.Windows
import Clipboard.Transfer.Convert
import Clipboard.Transfer.Import

/-!
# Inspecting negotiation and conversion

What `datatransfer-inspect` does once its arguments are read. A run has a text for the standard
output and an exit status; when it fails, it also has the wording of the failure, the most general
part first.
-/

namespace Clipboard.Inspect

open CommandLine

/-- How a run ends. -/
structure Outcome where
  status : Nat
  output : String
  failure : List String
  misuse : Option UsageFault
  deriving DecidableEq, Repr

namespace Outcome

def success (output : String) : Outcome := { status := 0, output, failure := [], misuse := none }

def failed (parts : List String) : Outcome :=
  { status := 1, output := "", failure := parts, misuse := none }

def misused (fault : UsageFault) : Outcome :=
  { status := 2, output := "", failure := [], misuse := some fault }

def errorOutput (o : Outcome) : String :=
  match o.misuse, o.failure with
  | some fault, _ => "error: " ++ fault.message ++ "\n\nFor more information, try '--help'.\n"
  | none, [] => ""
  | none, [part] => "Error: " ++ part ++ "\n"
  | none, part :: causes =>
    "Error: " ++ part ++ "\n\nCaused by:\n" ++ textOf (causes.map ("    " ++ ·))

end Outcome

/-- What a run needs of its surroundings. -/
structure Surroundings where
  host : Host
  input : Bytes

/-! ## Hexadecimal arguments -/

/-- The byte that two characters spell; the first may be a plus sign. -/
def byte? (a b : Char) : Option UInt8 := do
  let low ← Hex.value? b
  let high ← if a = '+' then some 0 else Hex.value? a
  return UInt8.ofNat (16 * high + low)

/-- The bytes that pairs of characters spell. -/
def pairs : List Char → Except String Bytes
  | [] => .ok []
  | [_] => .error "Odd number of hex digits"
  | a :: b :: rest =>
    match byte? a b with
    | none => .error ("Invalid hex byte: " ++ String.ofList [a, b])
    | some byte => (pairs rest).map (byte :: ·)

/-- The bytes of an argument; blanks do not count. -/
def bytesOf (hex : String) : Except String Bytes :=
  let digits := hex.toList.filter (fun c => !Text.isBlank c)
  if digits.length % 2 = 1 then .error "Odd number of hex digits" else pairs digits

/-! ## Commands -/

/-- Lines of fields with tabs between them. -/
def tabbed (rows : List (List String)) : String := textOf (rows.map ("\t".intercalate ·))

def formatName (e : Engine) (id : FormatId) : String :=
  match e.table.native? id with
  | some native => native.name
  | none => "?"

def flavorOf (text : String) : Except (List String) Flavor :=
  match Flavor.require text with
  | .ok f => .ok f
  | .error fault => .error ["Invalid flavor: " ++ text, fault.message]

def wordsOf : Failure → List String
  | .error fault => [fault.message]
  | .breakdown => []

/-- A conversion that is the first of its engine. -/
def first {α : Type} (x : Transfer α) : Except (List String) α :=
  match (x.run .empty).1 with
  | .ok a => .ok a
  | .error failure => .error (wordsOf failure)

/-- The formats that flavors can be exported as, the best first. -/
def formats (e : Engine) (texts : List String) : Except (List String) String := do
  let fs ← texts.mapM flavorOf
  let ranked := ((Negotiation.formatsForFlavors e.table fs).run .empty).1
  return tabbed (ranked.map (fun c => [toString c.format, formatName e c.format, c.flavor.toString]))

/-- The flavors that formats can be imported as, the best first. -/
def flavors (e : Engine) (ids : List FormatId) : String :=
  let (chosen, memo) := (Negotiation.flavorsForFormats e.table ids).run .empty
  let sorted := ((Negotiation.flavorsSorted e.table (e.ranker .best) ids).run memo).1
  tabbed (sorted.map (fun f =>
    match chosen.lookup f with
    | some id => [f.toString, toString id, formatName e id]
    | none => [f.toString, "-"]))

/-- What stands for the absence of data. -/
def noData : String := "no data"

/-- The bytes of a text in a format. -/
def encode (e : Engine) (id : FormatId) (text : List Char) : Except (List String) String := do
  let source := Source.ofText text
  let data ← first (do
    let ranked ← Transfer.ask (Negotiation.formatsForFlavors e.table source.flavors)
    e.convert source id ranked)
  return textOf [(data.map (fun bytes => String.ofList (Hex.encode bytes))).getD noData]

/-- A value as it is printed: characters in quotes, bytes in hexadecimal. -/
def shown (v : TransferValue) : Except Error String :=
  match v with
  | .string _ | .charBuffer _ | .charArray _ | .reader _ =>
    v.requireText.map (fun text => String.ofList (Text.quote text))
  | .byteArray _ | .byteBuffer _ | .stream _ =>
    v.requireBytes.map (fun bytes => String.ofList (Hex.encode bytes))
  | v => .ok v.describe

/-- The value of bytes in a flavor. -/
def decode (e : Engine) (id : FormatId) (flavor hex : String) : Except (List String) String := do
  let f ← flavorOf flavor
  let bytes ← match bytesOf hex with
    | .ok bytes => .ok bytes
    | .error part => .error [part]
  match ← first (e.importBytes bytes f id none) with
  | none => return textOf [noData]
  | some v =>
    match shown v with
    | .ok text => return textOf [text]
    | .error fault => throw [fault.message]

def charsets (e : Engine) (names : List String) : String :=
  tabbed ((Ranking.sortCharsets e.defaultCharset .best names).map (fun name =>
    [name, Charset.canonicalName name, toString (Charset.isSupported name)]))

/-- The text to be encoded: the argument, or else the standard input. -/
def textOrInput (s : Surroundings) : Option String → Except (List String) (List Char)
  | some text => .ok text.toList
  | none =>
    match Utf8.decode? s.input with
    | some text => .ok text
    | none => .error ["Failed to read stdin", "stream did not contain valid UTF-8"]

def perform (s : Surroundings) (e : Engine) : Command → Except (List String) String
  | .formats texts => formats e texts
  | .flavors ids => .ok (flavors e ids)
  | .encode id text => do encode e id (← textOrInput s text)
  | .decode id flavor hex => decode e id flavor hex
  | .charsets names => .ok (charsets e names)

/-! ## Runs -/

/-- The configuration file named by the options, or else by the environment. -/
def configPath (s : Surroundings) (o : Options) : Option Path :=
  o.config.or (s.host.environment.find? configVariable)

/-- The log file can be created, if there is to be one. -/
def checkLog (s : Surroundings) (o : Options) : Except (List String) Unit :=
  match o.logFile with
  | none => .ok ()
  | some path =>
    if s.host.files.canWrite path then .ok () else .error ["Failed to create log file: " ++ path]

def config (s : Surroundings) (o : Options) : Except (List String) Config :=
  match configPath s o with
  | none => .ok .windows
  | some path =>
    match Config.load s.host.files path with
    | .ok c => .ok c
    | .error fault => .error fault.parts

def engine (s : Surroundings) (o : Options) : Except (List String) Engine := do
  match (← config s o).engine s.host with
  | .ok e => return e
  | .error fault => throw fault.parts

/-- A run with options and a command. -/
def runCommand (s : Surroundings) (o : Options) (c : Command) : Outcome :=
  let printed := do
    checkLog s o
    perform s (← engine s o) c
  match printed with
  | .ok text => .success text
  | .error parts => .failed parts

def run (s : Surroundings) (args : List String) : Outcome :=
  match Request.ofArguments args with
  | .error fault => .misused fault
  | .ok .version => .success versionText
  | .ok (.help topic) => .success (topic.text (s.host.environment.find? configVariable))
  | .ok (.run o c) => runCommand s o c

end Clipboard.Inspect
