import Clipboard.Host

/-!
# Files that may leave the process

Before a list of files is exported its paths are made canonical, and if a read permission is in
force those that it refuses, and those in cache directories, are dropped. What is left keeps its
order.
-/

namespace Clipboard.FileExport

/-- Whether a path may be exported under a permission. -/
def isPermitted (files : FileSystem) (cacheDirs : List Path) (permission : ReadPermission)
    (p : Path) : Bool :=
  !CacheDirs.contains files cacheDirs p && permission p

/-- The paths that may be exported, in canonical form. -/
def exportable (files : FileSystem) (cacheDirs : List Path) (permission? : Option ReadPermission)
    (paths : List Path) : List Path :=
  let canonical := paths.map files.canonicalOrAbsolute
  match permission? with
  | none => canonical
  | some permission => canonical.filter (isPermitted files cacheDirs permission)

/-- The words of a text that name files which exist and may be exported, one on a line. -/
def removeSuspect (files : FileSystem) (cacheDirs : List Path) (permission : ReadPermission)
    (text : List Char) : List Char :=
  let kept := ((Text.words text).map String.ofList).filter
    (fun p => files.pathExists p && isPermitted files cacheDirs permission p)
  (String.intercalate "\r\n" kept).toList

end Clipboard.FileExport
