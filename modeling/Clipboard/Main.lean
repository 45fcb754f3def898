import Clipboard.Inspect

/-!
# The program

`datatransfer-inspect` looks at as much of its surroundings as its arguments ask for, runs, and
prints what the run has for the two outputs.
-/

open Clipboard

namespace Clipboard.Main

/-- The value that a reading gives, if it succeeds. -/
def attempt {α : Type} (reading : IO α) : IO (Option α) := do
  try
    return some (← reading)
  catch _ =>
    return none

def observe (path : String) : IO (Option Node) := do
  match ← attempt (IO.FS.readBinFile path) with
  | some content => return some (.file content.toList)
  | none =>
    match ← attempt (IO.FS.realPath path) with
    | some _ => return some .directory
    | none => return none

/-- What is found at a place and on the way to it. -/
def observeWay (place : List String) : IO (List (List String × Node)) := do
  let mut nodes := []
  for i in [1:place.length + 1] do
    let here := place.take i
    if let some node ← observe (Path.ofComponents here) then
      nodes := (here, node) :: nodes
  return nodes

/-- The file system as far as the paths given lead through it. -/
def observeFiles (paths : List String) : IO FileSystem := do
  let current := Path.components (toString (← IO.currentDir))
  let mut nodes ← observeWay current
  for path in paths do
    let place := if Path.isAbsolute path then Path.components path
      else current ++ Path.components path
    nodes := nodes ++ (← observeWay place)
  return { nodes, current }

/-- The variables of the environment that matter. -/
def observeEnvironment : IO (Dictionary String) := do
  let mut known := []
  for name in CommandLine.configVariable :: CacheDirs.propertyKeys.map CacheDirs.variableOf do
    if let some value ← IO.getEnv name then
      known := (name, value) :: known
  return Dictionary.ofList known

def pathsOf (environment : Dictionary String) : CommandLine.Request → List String
  | .run o _ =>
    ((o.config.or (environment.find? CommandLine.configVariable)).toList ++ o.logFile.toList)
      ++ environment.map Prod.snd
  | _ => []

/-- What a request needs to know. -/
def surroundings (request : CommandLine.Request) : IO Inspect.Surroundings := do
  let environment ← observeEnvironment
  let files ← observeFiles (pathsOf environment request)
  let input : Bytes ← match request with
    | .run _ (.encode _ none) => do
      let bytes ← (← IO.getStdin).readBinToEnd
      pure bytes.toList
    | _ => pure []
  return { host := { files, environment }, input }

def beginLog (s : Inspect.Surroundings) (path : String) : IO Unit := do
  if s.host.files.canWrite path then
    IO.FS.writeFile path ""

/-- A run with arguments; its exit status is the result. -/
def run (args : List String) : IO UInt32 := do
  let outcome ← match CommandLine.Request.ofArguments args with
    | .error fault => pure (Inspect.Outcome.misused fault)
    | .ok request => do
      let s ← surroundings request
      if let .run o _ := request then
        if let some path := o.logFile then
          beginLog s path
      pure (Inspect.run s args)
  IO.print outcome.output
  IO.eprint outcome.errorOutput
  return UInt32.ofNat outcome.status

end Clipboard.Main

def main (args : List String) : IO UInt32 := Clipboard.Main.run args
