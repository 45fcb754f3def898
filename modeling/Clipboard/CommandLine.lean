import Clipboard.CommandLine.Arguments
import Clipboard.Format
import Clipboard.Text.Number

/-!
# The command line

`datatransfer-inspect` takes options that hold for all commands, the name of a command, and the
command's own options and texts. `Request.ofArguments` reads all of them; a request for help or for
the version is answered as soon as it is met.
-/

namespace Clipboard.CommandLine

/-- The names of the commands. -/
inductive CommandName where
  | formats
  | flavors
  | encode
  | decode
  | charsets
  deriving DecidableEq, Repr

def CommandName.ofName? : String → Option CommandName
  | "formats" => some .formats
  | "flavors" => some .flavors
  | "encode" => some .encode
  | "decode" => some .decode
  | "charsets" => some .charsets
  | _ => none

inductive Command where
  /-- The formats that flavors can be exported as. -/
  | formats (flavors : List String)
  /-- The flavors that formats can be imported as. -/
  | flavors (formats : List FormatId)
  /-- The bytes of a text, or of what is read, in a format. -/
  | encode (format : FormatId) (text : Option String)
  /-- The value of bytes, given in hexadecimal, in a flavor. -/
  | decode (format : FormatId) (flavor hex : String)
  | charsets (names : List String)
  deriving DecidableEq, Repr

/-- The options that hold for all commands. -/
structure Options where
  config : Option String
  verbosity : Nat
  logFormat : Option String
  /-- The file that the log is written to. -/
  logFile : Option String
  deriving DecidableEq, Repr

/-- What help is given on. -/
inductive Topic where
  | program
  | command (name : CommandName)
  | help
  deriving DecidableEq, Repr

/-- What is asked for. -/
inductive Request where
  | run (options : Options) (command : Command)
  | version
  | help (topic : Topic)
  deriving DecidableEq, Repr

/-! ## Commands -/

def helpSwitch : Switch := { long := "help", short := some 'h', takesValue := false }

def formatSwitch : Switch := { long := "format", short := some 'f', takesValue := true }

/-- What a command takes. -/
structure Signature where
  switches : List Switch
  takesNumbers : Bool
  most : Option Nat

def CommandName.signature : CommandName → Signature
  | formats | charsets => { switches := [helpSwitch], takesNumbers := false, most := none }
  | flavors => { switches := [helpSwitch], takesNumbers := true, most := none }
  | encode => { switches := [helpSwitch, formatSwitch], takesNumbers := false, most := some 1 }
  | decode =>
    { switches :=
        [helpSwitch, formatSwitch, { long := "flavor", short := none, takesValue := true }]
      takesNumbers := false, most := some 1 }

/-- What was given to a command. -/
structure Given where
  options : List (String × String)
  texts : List String

namespace Given

def empty : Given := { options := [], texts := [] }

/-- The number that a text stands for. -/
def number (text : String) : Except UsageFault FormatId :=
  match Text.word? text.toList with
  | some n => .ok ⟨n⟩
  | none => .error (.invalidValue text)

def addOption (g : Given) (name value : String) : Except UsageFault Given := do
  if (g.options.lookup name).isSome then throw (.repeated name)
  if name = formatSwitch.long then
    let _ ← number value
  return { g with options := g.options ++ [(name, value)] }

def addText (s : Signature) (g : Given) (text : String) : Except UsageFault Given := do
  if s.most.any (· ≤ g.texts.length) then throw (.unknownArgument text)
  if s.takesNumbers then
    let _ ← number text
  return { g with texts := g.texts ++ [text] }

/-- What items give, or nothing if they ask for help. -/
def ofItems (s : Signature) (g : Given) : List Item → Except UsageFault (Option Given)
  | [] => .ok (some g)
  | .flag _ :: _ => .ok none
  | .option name value :: items => do ofItems s (← g.addOption name value) items
  | .text text _ :: items => do ofItems s (← g.addText s text) items
  | .trailing text :: items => do ofItems s (← g.addText s text) items
  | .fault f :: _ => .error f

/-- The texts, of which there must be some. -/
def someTexts (g : Given) (name : String) : Except UsageFault (List String) :=
  if g.texts.isEmpty then .error (.missingArgument name) else .ok g.texts

def format (g : Given) : Except UsageFault FormatId :=
  match g.options.lookup formatSwitch.long with
  | none => .error (.missingArgument "--format <FORMAT>")
  | some value => number value

end Given

/-- The flavor that bytes are decoded into if none is given. -/
def defaultFlavor : String := "text/plain; class=string"

def CommandName.command (name : CommandName) (g : Given) : Except UsageFault Command :=
  match name with
  | formats => do return .formats (← g.someTexts "<FLAVORS>...")
  | flavors => do return .flavors (← (← g.someTexts "<FORMATS>...").mapM Given.number)
  | encode => do return .encode (← g.format) g.texts.head?
  | decode => do
    let format ← g.format
    match g.texts with
    | hex :: _ => return .decode format ((g.options.lookup "flavor").getD defaultFlavor) hex
    | [] => throw (.missingArgument "<HEX>")
  | charsets => do return .charsets (← g.someTexts "<NAMES>...")

/-- The command that arguments give, or nothing if they ask for help. -/
def CommandName.ofArguments (name : CommandName) (args : List String) :
    Except UsageFault (Option Command) := do
  let s := name.signature
  match ← Given.ofItems s .empty (Item.ofArguments s.switches args) with
  | none => return none
  | some given => return some (← name.command given)

/-! ## Requests -/

/-- The switches that hold for all commands. -/
def Options.switches : List Switch := [
  { long := "config", short := some 'c', takesValue := true },
  { long := "verbose", short := some 'v', takesValue := false },
  { long := "log-format", short := none, takesValue := true },
  { long := "log-file", short := none, takesValue := true },
  helpSwitch,
  { long := "version", short := some 'V', takesValue := false }]

namespace Options

def empty : Options := { config := none, verbosity := 0, logFormat := none, logFile := none }

/-- A value, where there is none yet. -/
def setOnce (name value : String) : Option String → Except UsageFault (Option String)
  | none => .ok (some value)
  | some _ => .error (.repeated name)

def add (o : Options) (name value : String) : Except UsageFault Options :=
  match name with
  | "config" => do return { o with config := ← setOnce name value o.config }
  | "log-format" => do return { o with logFormat := ← setOnce name value o.logFormat }
  | "log-file" => do return { o with logFile := ← setOnce name value o.logFile }
  | _ => .error (.unknownArgument name)

end Options

namespace Request

/-- What is asked of the command that gives help. -/
def ofTopic : List String → Except UsageFault Request
  | [] => .ok (.help .program)
  | ["help"] => .ok (.help .help)
  | [name] =>
    match CommandName.ofName? name with
    | some name => .ok (.help (.command name))
    | none => .error (.unknownCommand name)
  | _ :: name :: _ => .error (.unknownCommand name)

def ofCommand (o : Options) (name : String) (args : List String) : Except UsageFault Request :=
  if name = "help" then ofTopic args
  else
    match CommandName.ofName? name with
    | none => .error (.unknownCommand name)
    | some name => do
      match ← name.ofArguments args with
      | none => return .help (.command name)
      | some command => return .run o command

def ofItems (o : Options) : List Item → Except UsageFault Request
  | [] => .error .missingCommand
  | .flag "help" :: _ => .ok (.help .program)
  | .flag "version" :: _ => .ok .version
  | .flag _ :: items => ofItems { o with verbosity := o.verbosity + 1 } items
  | .option name value :: items => do ofItems (← o.add name value) items
  | .text name rest :: _ => ofCommand o name rest
  | .trailing text :: _ => .error (.unknownArgument text)
  | .fault f :: _ => .error f

def ofArguments (args : List String) : Except UsageFault Request :=
  ofItems .empty (Item.ofArguments Options.switches args)

end Request

end Clipboard.CommandLine
