import Clipboard.Config.Reader
import Clipboard.Config.Validation
import Clipboard.Host
import Clipboard.Utf8

/-!
# Configuration files

A configuration file is TOML in UTF-8, and what it describes must make sense.
-/

namespace Clipboard

/-- Why a text gives no configuration. -/
inductive ConfigTextFault where
  /-- It is not TOML or describes something else. -/
  | unreadable
  | invalid (fault : ConfigFault)
  deriving DecidableEq, Repr

/-- The wording of a fault, the most general part first. -/
def ConfigTextFault.parts : ConfigTextFault → List String
  | unreadable => ["Failed to parse config file"]
  | invalid fault => fault.parts

/-- Why a file gives no configuration. -/
inductive ConfigFileFault where
  /-- There is no such file, or it is not UTF-8. -/
  | missing (path : Path)
  | content (path : Path) (fault : ConfigTextFault)
  deriving DecidableEq, Repr

/-- The wording of a fault, the most general part first. -/
def ConfigFileFault.parts : ConfigFileFault → List String
  | missing path => ["Failed to read config file: " ++ path]
  | content path fault => ("Invalid config file: " ++ path) :: fault.parts

namespace Config

/-- The configuration that a TOML text describes, if it makes sense. -/
def ofText (text : List Char) : Except ConfigTextFault Config :=
  match ofToml? text with
  | none => .error .unreadable
  | some c =>
    match c.validate with
    | .error fault => .error (.invalid fault)
    | .ok () => .ok c

def load (files : FileSystem) (path : Path) : Except ConfigFileFault Config :=
  match (files.content? path).bind Utf8.decode? with
  | none => .error (.missing path)
  | some text =>
    match ofText text with
    | .error fault => .error (.content path fault)
    | .ok c => .ok c

end Config

end Clipboard
