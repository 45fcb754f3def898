import Clipboard.Host.Path
import Clipboard.Text.Hex

/-!
# File systems

A file system is what can be found under which absolute path, and a current directory. Looking a
path up goes from component to component: each must be found, all but the last must be directories,
and a symbolic link is followed. `linkLimit` links are followed at most, so that a circle of links
leads nowhere.

* `canonicalize` gives the path without links, dots and superfluous slashes, if there is such a file.
* `canonicalOrAbsolute` falls back on the path as it is, seen from the current directory.
-/

namespace Clipboard

/-- What a path can lead to. -/
inductive Node where
  | directory
  | file (content : Bytes)
  | link (target : Path)
  deriving DecidableEq, Repr

/-- What can be found where. -/
structure FileSystem where
  /-- The components of a path, and what it leads to; the root is always there. -/
  nodes : List (List String × Node)
  current : List String
  deriving Repr

namespace FileSystem

def node? (fs : FileSystem) (place : List String) : Option Node :=
  if place.isEmpty then some .directory else fs.nodes.lookup place

/-- Whether there is a directory at a place. -/
def isDirectoryAt (fs : FileSystem) (place : List String) : Bool :=
  fs.node? place = some .directory

/-- As many links are followed. -/
def linkLimit : Nat := 40

/-- The place that pieces of a path lead to from a place; none if there is nothing. -/
def walk (fs : FileSystem) (links : Nat) (place : List String) (todo : List String) :
    Option (List String) :=
  match todo with
  | [] => some place
  | c :: rest =>
    if !fs.isDirectoryAt place then none
    else if c = "" ∨ c = "." then fs.walk links place rest
    else if c = ".." then fs.walk links place.dropLast rest
    else
      match fs.node? (place ++ [c]), links with
      | none, _ => none
      | some (.link _), 0 => none
      | some (.link target), links + 1 =>
        let start := if target.isAbsolute then [] else place
        fs.walk links start (target.pieces ++ rest)
      | some _, links => fs.walk links (place ++ [c]) rest
termination_by (links, todo.length)

def resolve? (fs : FileSystem) (p : Path) : Option (List String) :=
  if p = "" then none
  else fs.walk linkLimit (if p.isAbsolute then [] else fs.current) p.pieces

def pathExists (fs : FileSystem) (p : Path) : Bool := (fs.resolve? p).isSome

/-- The path of the place that a path leads to. -/
def canonicalize? (fs : FileSystem) (p : Path) : Option Path :=
  (fs.resolve? p).map Path.ofComponents

/-- The path of the place that a path leads to, or else the absolute form of the path. -/
def canonicalOrAbsolute (fs : FileSystem) (p : Path) : Path :=
  (fs.canonicalize? p).getD
    (if p.isAbsolute then p else (Path.ofComponents fs.current).join p)

/-- The content of the file that a path leads to. -/
def content? (fs : FileSystem) (p : Path) : Option Bytes := do
  match fs.node? (← fs.resolve? p) with
  | some (.file content) => some content
  | _ => none

/-- Whether the path leads to a directory. -/
def isDirectory (fs : FileSystem) (p : Path) : Bool :=
  ((fs.resolve? p).bind fs.node?) = some .directory

/-- Whether a file can be written under a path: what is there is a file, or there is nothing yet in
a directory that is. -/
def canWrite (fs : FileSystem) (p : Path) : Bool :=
  match (fs.resolve? p).bind fs.node? with
  | some (.file _) => true
  | some _ => false
  | none =>
    match p.pieces.reverse with
    | [] => false
    | name :: parents =>
      let parent := "/".intercalate parents.reverse
      name ≠ "" && name ≠ "." && name ≠ ".."
        && fs.isDirectory (if parents.isEmpty then "." else parent ++ "/")

end FileSystem

end Clipboard
