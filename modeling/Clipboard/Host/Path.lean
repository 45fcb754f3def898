import Clipboard.Text.Blank

/-!
# Paths

A path is text; slashes separate its components. Two paths name the same place, as far as the text
tells, if their components are the same: empty components and single dots do not count. A path lies
inside a directory if the directory's components are the first of its own.
-/

namespace Clipboard

abbrev Path := String

namespace Path

/-- Whether the path begins at the root. -/
def isAbsolute (p : Path) : Bool := p.toList.head? = some '/'

def pieces (p : Path) : List String :=
  (Text.pieces (· == '/') p.toList).map String.ofList

/-- The components that count. -/
def components (p : Path) : List String := (pieces p).filter (fun c => c ≠ "" && c ≠ ".")

/-- Whether a path lies inside a directory, or is the directory itself; both are absolute. -/
def isInside (dir p : Path) : Bool := dir.components.isPrefixOf p.components

/-- A relative path seen from a directory. -/
def join (dir p : Path) : Path :=
  if dir.toList.getLast? = some '/' then dir ++ p else dir ++ "/" ++ p

def ofComponents (cs : List String) : Path := "/" ++ String.intercalate "/" cs

end Path

end Clipboard
