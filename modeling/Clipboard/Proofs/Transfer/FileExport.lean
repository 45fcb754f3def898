import Clipboard.Proofs.Transfer.Export
import Clipboard.Proofs.Transfer.Import

/-!
# Files that are not to leave

Under a read permission, two lists of files that differ only in paths that are not to leave the
process are exported alike, to the platform's list of files and to a list of URIs: whoever reads the
bytes cannot tell whether such a path was there (`exportFrom_fileList`).

To any other format a list of files goes as an object, and then every path is in it
(`exportFrom_fileList_discloses`).
-/

namespace Clipboard

/-- A source that has a list of files, and nothing else. -/
def Source.ofFiles (paths : List Path) : Source where
  flavors := [Flavor.fileList]
  data f :=
    if f = Flavor.fileList then .ok (some (.fileList paths))
    else .error (.error (.unsupportedConversion (.notOffered f)))
  permission := none

theorem Source.data_ofFiles (paths : List Path) :
    (ofFiles paths).data Flavor.fileList = .ok (some (.fileList paths)) := by
  simp [ofFiles]

/-- The object that paths are written as has them all. -/
theorem Json.write_strings (ss : List String) :
    write (.array (ss.map .string)) = '[' :: joinWith [','] (ss.map writeString) ++ [']'] := by
  have hitem : write ∘ Value.string = writeString := funext (fun s => by simp [write])
  rw [write, List.attach_map_val, List.map_map, hitem]

namespace Engine

/-- Whether a path, in its canonical form, may leave the process under a permission. -/
def mayLeave (e : Engine) (permission : ReadPermission) (p : Path) : Bool :=
  FileExport.isPermitted e.host.files e.cacheDirs permission (e.host.files.canonicalOrAbsolute p)

variable {e : Engine} {id : FormatId} {permission : ReadPermission} {source s₁ s₂ : Source}
  {paths l₁ l₂ : List Path}

theorem exportable_eq (e : Engine) (permission : ReadPermission) (paths : List Path) :
    FileExport.exportable e.host.files e.cacheDirs (some permission) paths
      = (paths.filter (e.mayLeave permission)).map e.host.files.canonicalOrAbsolute := by
  simp only [FileExport.exportable, List.filter_map]
  rfl

theorem exportablePaths_fileList (hpermission : e.permissionFor source = some permission) :
    e.exportablePaths source Flavor.fileList (.fileList paths)
      = .ok ((paths.filter (e.mayLeave permission)).map e.host.files.canonicalOrAbsolute) := by
  have hfiles : Flavor.fileList.isFileList = true := by decide +kernel
  rw [exportablePaths, if_pos hfiles, hpermission, exportable_eq]

/-- A list of files is written as an object, unless the format is one of files or URIs. -/
theorem run_exportFrom_fileList (hdata : source.data Flavor.fileList = .ok (some (.fileList paths)))
    (memo : SubtypeMemo) : (e.exportFrom source Flavor.fileList id).run memo
      = (some <$> e.exportObject source Flavor.fileList id (.fileList paths)).run memo := by
  have hask : (e.isCharsetText Flavor.fileList id).run memo = (.ok false, memo) := rfl
  have hvalue : (e.exportValue source Flavor.fileList id false (.fileList paths)).run memo
      = (e.exportObject source Flavor.fileList id (.fileList paths)).run memo := by
    rw [exportValue, Transfer.run_bind_of_ok hask]
  have hrep : (TransferValue.fileList paths).representation = Flavor.fileList.representation := rfl
  rw [run_exportFrom_of_representation hdata hrep, Transfer.run_map, hvalue, Transfer.run_map]

theorem exportObject_congr (hp₁ : e.permissionFor s₁ = some permission)
    (hp₂ : e.permissionFor s₂ = some permission)
    (hsame : l₁.filter (e.mayLeave permission) = l₂.filter (e.mayLeave permission))
    (hkind : e.table.isFileList id = true ∨ e.table.isUriList id = true) :
    e.exportObject s₁ Flavor.fileList id (.fileList l₁)
      = e.exportObject s₂ Flavor.fileList id (.fileList l₂) := by
  have hpaths : e.exportablePaths s₁ Flavor.fileList (.fileList l₁)
      = e.exportablePaths s₂ Flavor.fileList (.fileList l₂) := by
    rw [exportablePaths_fileList hp₁, exportablePaths_fileList hp₂, hsame]
  rw [exportObject, exportObject]
  split
  · rw [exportFiles, exportFiles, hpaths]
  · next hfiles =>
    have huris := hkind.resolve_left hfiles
    rw [if_pos huris, if_pos huris, exportUris, exportUris, hpaths]

/-- **Whether a file was there that is not to leave cannot be told** from a list of files or of URIs.
In an object all the files can be told. -/
theorem exportFrom_fileList (h₁ : s₁.data Flavor.fileList = .ok (some (.fileList l₁)))
    (h₂ : s₂.data Flavor.fileList = .ok (some (.fileList l₂)))
    (hp₁ : e.permissionFor s₁ = some permission) (hp₂ : e.permissionFor s₂ = some permission)
    (hsame : l₁.filter (e.mayLeave permission) = l₂.filter (e.mayLeave permission))
    (memo : SubtypeMemo) :
    (e.table.isFileList id = true ∨ e.table.isUriList id = true →
      (e.exportFrom s₁ Flavor.fileList id).run memo
        = (e.exportFrom s₂ Flavor.fileList id).run memo) ∧
    (e.table.isFileList id = false → e.table.isUriList id = false →
      (e.exportFrom s₁ Flavor.fileList id).run memo
        = (some <$> Transfer.lift (e.serializer.serialize (.array (l₁.map .string)))).run memo) := by
  rw [run_exportFrom_fileList h₁, run_exportFrom_fileList h₂]
  refine ⟨fun hkind => ?_, fun hfiles huris => ?_⟩
  · rw [exportObject_congr hp₁ hp₂ hsame hkind]
  · rw [exportObject, if_neg (by simp [hfiles]), if_neg (by simp [huris])]

/-- One of two files is refused: the list has the other, as if there were no more. -/
theorem exportFrom_fileList_refused :
    let native : NativeFormat :=
      { id := .dropFiles, name := "FILES", kind := .fileList, localeDependent := false, text := none }
    let permission : ReadPermission := fun p => p ≠ "/secret"
    let e : Engine := { ofFormat native with permission := some permission }
    let both := Source.ofFiles ["/a", "/secret"]
    let one := Source.ofFiles ["/a"]
    both.data Flavor.fileList = .ok (some (.fileList ["/a", "/secret"])) ∧
      one.data Flavor.fileList = .ok (some (.fileList ["/a"])) ∧
      e.permissionFor both = some permission ∧ e.permissionFor one = some permission ∧
      ["/a", "/secret"].filter (e.mayLeave permission) = ["/a"].filter (e.mayLeave permission) ∧
      (e.exportFrom both Flavor.fileList native.id).run .empty
        = (e.exportFrom one Flavor.fileList native.id).run .empty := by
  intro native permission e both one
  have hpieces : Path.pieces "/secret" = ["", "secret"] := by decide +kernel
  have habsolute : Path.isAbsolute "/secret" = true := by decide +kernel
  have hnowhere : e.host.files.resolve? "/secret" = none := by
    simp [e, ofFormat, new, FileSystem.resolve?, hpieces, habsolute, FileSystem.walk,
      FileSystem.isDirectoryAt, FileSystem.node?]
  have hsecret : e.mayLeave permission "/secret" = false := by
    simp [mayLeave, FileExport.isPermitted, FileSystem.canonicalOrAbsolute,
      FileSystem.canonicalize?, hnowhere, habsolute, permission]
  have hsame : ["/a", "/secret"].filter (e.mayLeave permission)
      = ["/a"].filter (e.mayLeave permission) := by simp [List.filter, hsecret]
  have hkind : e.table.isFileList native.id = true := by decide +kernel
  have hboth := Source.data_ofFiles ["/a", "/secret"]
  have hone := Source.data_ofFiles ["/a"]
  obtain ⟨hequal, -⟩ := exportFrom_fileList hboth hone rfl rfl hsame .empty
  exact ⟨hboth, hone, rfl, rfl, hsame, hequal (Or.inl hkind)⟩

/-- No file may leave, and yet the path of one is in the object that a list of files is written as. -/
theorem exportFrom_fileList_discloses :
    let native : NativeFormat :=
      { id := ⟨0xC100⟩, name := "application/x-blob", kind := .plain, localeDependent := false,
        text := none }
    let permission : ReadPermission := fun _ => false
    let e : Engine := { ofFormat native with permission := some permission }
    ["/secret"].filter (e.mayLeave permission) = [] ∧
      (e.exportFrom (.ofFiles []) Flavor.fileList native.id).run .empty
        = (.ok (some (Utf8.encode "[]".toList)), .empty) ∧
      (e.exportFrom (.ofFiles ["/secret"]) Flavor.fileList native.id).run .empty
        = (.ok (some (Utf8.encode "[\"/secret\"]".toList)), .empty) := by
  intro native permission e
  have hfiles : ¬e.table.isFileList native.id = true := by decide +kernel
  have huris : ¬e.table.isUriList native.id = true := by decide +kernel
  have hobject (paths : List Path) :
      (e.exportFrom (.ofFiles paths) Flavor.fileList native.id).run .empty
        = (.ok (some (Json.toBytes (.array (paths.map .string)))), .empty) := by
    rw [run_exportFrom_fileList (Source.data_ofFiles paths), exportObject, if_neg hfiles, if_neg huris]
    rfl
  have hsecret : e.mayLeave permission "/secret" = false := by
    simp [mayLeave, FileExport.isPermitted, permission]
  have hnone : Json.write (.array (List.map .string [])) = "[]".toList := by
    rw [Json.write_strings]
    decide +kernel
  have hone : Json.write (.array (List.map .string ["/secret"])) = "[\"/secret\"]".toList := by
    rw [Json.write_strings]
    decide +kernel
  refine ⟨by simp [List.filter, hsecret], ?_, ?_⟩
  · rw [hobject, Json.toBytes, hnone]
  · rw [hobject, Json.toBytes, hone]

end Engine

end Clipboard
