import Clipboard.Dictionary
import Clipboard.Host.FileSystem

/-!
# The host

What a conversion can ask of the machine it runs on: the file system and the environment. Neither
changes while a conversion runs.

A read permission decides which files may leave the process. Cache directories hold files of
untrusted origin; each of them is named by a property, or else by a variable of the environment.
-/

namespace Clipboard

/-- The file system and the environment. -/
structure Host where
  files : FileSystem
  environment : Dictionary String
  deriving Repr

abbrev ReadPermission := Path → Bool

/-- The permission to read whatever can be opened. -/
def ReadPermission.ofFiles (files : FileSystem) : ReadPermission := files.pathExists

namespace CacheDirs

/-- The properties that name cache directories. -/
def propertyKeys : List String :=
  ["datatransfer.system.cachedir", "datatransfer.user.cachedir", "datatransfer.launcher.cachedir",
    "datatransfer.plugin.cachedir"]

/-- The variable that stands for a property: capitals, and underscores for dots. -/
def variableOf (key : String) : String :=
  String.ofList ((Text.upper key.toList).map (fun c => if c = '.' then '_' else c))

/-- The directory that a property names, or else its variable. -/
def named? (host : Host) (properties : Dictionary String) (key : String) : Option Path :=
  (properties.find? key).or (host.environment.find? (variableOf key))

/-- The cache directories that exist. -/
def resolve (host : Host) (properties : Dictionary String) : List Path :=
  (propertyKeys.filterMap (named? host properties)).filterMap host.files.canonicalize?

/-- Whether a path leads into one of the directories. -/
def contains (files : FileSystem) (dirs : List Path) (p : Path) : Bool :=
  dirs.any (fun dir => dir.isInside (files.canonicalOrAbsolute p))

end CacheDirs

end Clipboard
