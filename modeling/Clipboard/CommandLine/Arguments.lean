/-!
# Arguments

Arguments are read from left to right as flags, options with their values, and texts. A long name
stands behind two dashes, its value behind an equals sign or as the next argument; short names may
stand together behind one dash, the rest of the argument being the value of the first that takes
one. What follows two dashes alone is text. A value never begins with a dash, unless it is nothing
else.

Reading goes on as far as the arguments make sense; the first that does not is the last item.
-/

namespace Clipboard.CommandLine

/-- A name with a meaning. -/
structure Switch where
  long : String
  short : Option Char
  takesValue : Bool
  deriving DecidableEq, Repr

/-- What is wrong with the arguments. -/
inductive UsageFault where
  | unknownArgument (text : String)
  | unexpectedValue (option : String)
  | missingValue (option : String)
  | repeated (option : String)
  | invalidValue (text : String)
  | missingArgument (name : String)
  | missingCommand
  | unknownCommand (name : String)
  deriving DecidableEq, Repr

def UsageFault.message : UsageFault → String
  | unknownArgument text => "unexpected argument '" ++ text ++ "' found"
  | unexpectedValue option => "unexpected value for '--" ++ option ++ "' found; no more were expected"
  | missingValue option => "a value is required for '--" ++ option ++ "' but none was supplied"
  | repeated option => "the argument '--" ++ option ++ "' cannot be used multiple times"
  | invalidValue text => "invalid value '" ++ text ++ "'"
  | missingArgument name => "the following required arguments were not provided: " ++ name
  | missingCommand => "a subcommand is required but one was not provided"
  | unknownCommand name => "unrecognized subcommand '" ++ name ++ "'"

/-- What an argument, or two, can be. -/
inductive Item where
  | flag (name : String)
  | option (name value : String)
  | text (s : String) (rest : List String)
  | trailing (s : String)
  | fault (f : UsageFault)
  deriving DecidableEq, Repr

namespace Item

/-- The items of an argument, and the option that waits for its value. -/
abbrev Partial := List Item × Option String

/-- A long name, perhaps with its value. -/
def ofLong (switches : List Switch) (cs : List Char) : Partial :=
  let (name, value) := cs.span (· ≠ '=')
  let name := String.ofList name
  match switches.find? (fun s => s.long = name) with
  | none => ([.fault (.unknownArgument ("--" ++ name))], none)
  | some s =>
    match s.takesValue, value with
    | true, [] => ([], some name)
    | true, _ :: value => ([.option name (String.ofList value)], none)
    | false, [] => ([.flag name], none)
    | false, _ :: _ => ([.fault (.unexpectedValue name)], none)

/-- Short names, perhaps with the value of the last. -/
def ofShort (switches : List Switch) : List Char → Partial
  | [] => ([], none)
  | c :: cs =>
    match switches.find? (fun s => s.short = some c) with
    | none => ([.fault (.unknownArgument (String.ofList ['-', c]))], none)
    | some s =>
      if s.takesValue then
        match cs with
        | [] => ([], some s.long)
        | '=' :: value => ([.option s.long (String.ofList value)], none)
        | value => ([.option s.long (String.ofList value)], none)
      else
        let (items, waiting) := ofShort switches cs
        (.flag s.long :: items, waiting)

/-- Whether an argument is a name and not a text. -/
def isName (arg : String) : Bool :=
  match arg.toList with
  | '-' :: _ :: _ => true
  | _ => false

def ofArguments (switches : List Switch) (args : List String) : List Item :=
  match args with
  | [] => []
  | arg :: rest =>
    if arg = "--" then rest.map .trailing
    else if !isName arg then .text arg rest :: ofArguments switches rest
    else
      let (items, waiting) := match arg.toList with
        | '-' :: '-' :: cs => ofLong switches cs
        | cs => ofShort switches (cs.drop 1)
      match waiting, rest with
      | none, rest => items ++ ofArguments switches rest
      | some name, [] => items ++ [.fault (.missingValue name)]
      | some name, value :: rest =>
        if isName value then items ++ [.fault (.missingValue name)]
        else items ++ .option name value :: ofArguments switches rest
termination_by args.length

end Item

end Clipboard.CommandLine
