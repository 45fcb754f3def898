import Clipboard.Proofs.Transfer.Export
import Clipboard.Proofs.Transfer.FileExport

/-!
# What reaches a list of files

A format that is the platform's list of files is written from the files of a flavor of files, and no
stream, image or object is taken for one. But bytes in hand, and the characters of charset text, are
written before the kind of the format is looked at (`TransferValue.isDirect`), and so they get there,
the bytes as they are (`exportFrom_toFileList`).
-/

namespace Clipboard

/-- Whether a value is written without a look at the kind of the format: bytes in hand always, and
characters if they are charset text or have been asked for instead of plain text. -/
def TransferValue.isDirect (charsetText asString : Bool) : TransferValue → Bool
  | .string _ => asString || charsetText
  | .reader _ | .charBuffer _ | .charArray _ => charsetText
  | .byteBuffer _ | .byteArray _ => true
  | .stream _ | .fileList _ | .image _ | .serializable _ | .remote _ => false

namespace Engine

variable {e : Engine} {source : Source} {f : Flavor} {id : FormatId} {memo after : SubtypeMemo}
  {v : TransferValue} {asString : Bool} {bytes : Bytes}

/-- Whether values of the flavor go through the charset of the format, if they are asked about now. -/
def takesCharset (e : Engine) (f : Flavor) (id : FormatId) (memo : SubtypeMemo) : Bool :=
  ((TextClassifier.isCharsetText f).run memo).1 && e.table.isText id

theorem run_isCharsetText_eq (e : Engine) (f : Flavor) (id : FormatId) (memo : SubtypeMemo) :
    (e.isCharsetText f id).run memo
      = (.ok (e.takesCharset f id memo), ((TextClassifier.isCharsetText f).run memo).2) := rfl

/-- The platform's list of the files that may leave. -/
def droppedFiles (e : Engine) (source : Source) (paths : List Path) : Bytes :=
  DropFiles.encode (FileExport.exportable e.host.files e.cacheDirs (e.permissionFor source) paths)

theorem exportFiles_fileList (hcodec : e.fileCodec = DropFiles.codec) (hf : f.isFileList = true)
    (source : Source) (paths : List Path) :
    e.exportFiles source f (.fileList paths) = .ok (e.droppedFiles source paths) := by
  rw [exportFiles, exportablePaths, if_pos hf, hcodec]
  rfl

/-- Of the values whose kind of format is looked at, only files of a flavor of files are a list of
files. -/
theorem of_exportFiles (hcodec : e.fileCodec = DropFiles.codec)
    (h : e.exportFiles source f v = .ok bytes) :
    f.isFileList = true ∧ ∃ paths, v = .fileList paths ∧ bytes = e.droppedFiles source paths := by
  cases v with
  | fileList paths =>
    by_cases hf : f.isFileList = true
    · rw [exportFiles_fileList hcodec hf] at h
      cases h
      exact ⟨hf, paths, rfl, rfl⟩
    · rw [exportFiles, exportablePaths, if_neg hf] at h
      cases h
  | _ => cases h

theorem exportObject_of_isFileList (hid : e.table.isFileList id = true) (source : Source)
    (f : Flavor) (v : TransferValue) :
    e.exportObject source f id v = Transfer.lift (e.exportFiles source f v) := by
  unfold exportObject
  rw [if_pos hid]

/-- What is not written directly is written as a list of files, or not at all. -/
theorem of_run_exportValue (hid : e.table.isFileList id = true)
    (hdirect : v.isDirect (e.takesCharset f id memo) asString = false)
    (h : (e.exportValue source f id asString v).run memo = (.ok bytes, after)) :
    e.exportFiles source f v = .ok bytes := by
  have hobject {between : SubtypeMemo}
      (h : (e.exportObject source f id v).run between = (.ok bytes, after)) :
      e.exportFiles source f v = .ok bytes := by
    rw [exportObject_of_isFileList hid] at h
    exact Transfer.of_run_lift h
  rw [exportValue, Transfer.run_bind_of_ok (e.run_isCharsetText_eq f id memo)] at h
  cases v with
  | string text =>
    have hnot : ¬(asString || e.takesCharset f id memo) = true := by
      simpa [TransferValue.isDirect] using hdirect
    dsimp only at h
    rw [if_neg hnot] at h
    exact hobject h
  | reader _ | charBuffer _ | charArray _ =>
    rw [TransferValue.isDirect] at hdirect
    rw [hdirect] at h
    cases h
  | byteBuffer _ | byteArray _ => cases hdirect
  | image image =>
    have hkind : e.table.isImage id = false := by
      rw [FormatTable.isFileList, decide_eq_true_eq] at hid
      rw [FormatTable.isImage, hid]
      rfl
    simp only [exportImage, hkind] at h
    cases h
  | stream _ | fileList _ | serializable _ | remote _ => exact hobject h

theorem run_exportFrom_files (hcodec : e.fileCodec = DropFiles.codec)
    (hid : e.table.isFileList id = true) (hf : f.isFileList = true) {paths : List Path}
    (hdata : source.data f = .ok (some (.fileList paths))) (memo : SubtypeMemo) :
    ((e.exportFrom source f id).run memo).1 = .ok (some (e.droppedFiles source paths)) := by
  have hrep : (TransferValue.fileList paths).representation = f.representation := by
    have hfiles := (Bool.and_eq_true_iff.mp hf).1
    exact (of_decide_eq_true hfiles).symm
  have hvalue : (e.exportValue source f id false (.fileList paths)).run memo
      = (.ok (e.droppedFiles source paths), ((TextClassifier.isCharsetText f).run memo).2) := by
    rw [exportValue, Transfer.run_bind_of_ok (e.run_isCharsetText_eq f id memo)]
    dsimp only
    rw [exportObject_of_isFileList hid, exportFiles_fileList hcodec hf, Transfer.run_lift_ok]
  rw [run_exportFrom_of_ok (request_of_representation hdata hrep) hrep hvalue]

/-- Bytes that are no charset text are taken over as they are. -/
theorem run_reencode_of_not_takesCharset (htext : e.takesCharset f id memo = false) :
    (e.reencode f id bytes).run memo = (.ok bytes, ((TextClassifier.isCharsetText f).run memo).2) := by
  rw [reencode, Transfer.run_bind_of_ok (e.run_isCharsetText_eq f id memo), htext]
  rfl

/-- Asked about again, the flavor is what it was. -/
theorem takesCharset_again (e : Engine) (f : Flavor) (id : FormatId) (memo : SubtypeMemo) :
    e.takesCharset f id ((TextClassifier.isCharsetText f).run memo).2 = e.takesCharset f id memo := by
  rw [takesCharset, (TextClassifier.settling_isCharsetText f).again (SubtypeMemo.Extends.refl _),
    takesCharset]

theorem run_exportFrom_bytes (hdata : source.data f = .ok (some v))
    (hrep : v.representation = f.representation)
    (hbytes : v = .byteArray bytes ∨ v = .byteBuffer bytes)
    (htext : e.takesCharset f id memo = false) :
    ((e.exportFrom source f id).run memo).1 = .ok (some bytes) := by
  have hvalue : ∃ after, (e.exportValue source f id false v).run memo = (.ok bytes, after) := by
    rw [exportValue, Transfer.run_bind_of_ok (e.run_isCharsetText_eq f id memo)]
    have hagain := (e.takesCharset_again f id memo).trans htext
    rcases hbytes with rfl | rfl
    · exact ⟨_, run_reencode_of_not_takesCharset hagain⟩
    · exact ⟨_, run_reencode_of_not_takesCharset hagain⟩
  obtain ⟨after, hvalue⟩ := hvalue
  rw [run_exportFrom_of_ok (request_of_representation hdata hrep) hrep hvalue]

/-- **A list of files is made of files**, of those that may leave the process, and of nothing else
whose kind is looked at: only what is written directly gets there too. Bytes in hand do, as they are,
unless they are charset text for a format that is also one of text. -/
theorem exportFrom_toFileList (hcodec : e.fileCodec = DropFiles.codec)
    (hid : e.table.isFileList id = true) (source : Source) (f : Flavor) (memo : SubtypeMemo) :
    let outcome := ((e.exportFrom source f id).run memo).1
    let listed := FileExport.exportable e.host.files e.cacheDirs (e.permissionFor source)
    let charsetText := ((TextClassifier.isCharsetText f).run memo).1 && e.table.isText id
    (∀ paths, f.isFileList = true → source.data f = .ok (some (.fileList paths)) →
      outcome = .ok (some (DropFiles.encode (listed paths)))) ∧
    (∀ bytes, outcome = .ok (some bytes) →
      (f.isFileList = true ∧ ∃ paths, source.data f = .ok (some (.fileList paths)) ∧
        bytes = DropFiles.encode (listed paths)) ∨
      ∃ v asString, request source f = .ok (some (v, asString)) ∧
        v.isDirect charsetText asString = true) ∧
    ∀ bytes v, source.data f = .ok (some v) → v.representation = f.representation →
      (v = .byteArray bytes ∨ v = .byteBuffer bytes) → charsetText = false →
      outcome = .ok (some bytes) := by
  intro outcome listed charsetText
  refine ⟨fun paths hf hdata => run_exportFrom_files hcodec hid hf hdata memo, ?_,
    fun bytes v hdata hrep hbytes htext => run_exportFrom_bytes hdata hrep hbytes htext⟩
  intro bytes hbytes
  have hrun : (e.exportFrom source f id).run memo
      = (.ok (some bytes), ((e.exportFrom source f id).run memo).2) := Prod.ext hbytes rfl
  obtain ⟨v, asString, hrequest, hrep, hvalue⟩ := request_of_run_exportFrom hrun
  cases hdirect : v.isDirect charsetText asString with
  | true => exact Or.inr ⟨v, asString, hrequest, hdirect⟩
  | false =>
    obtain ⟨hf, paths, rfl, hlisted⟩ := of_exportFiles hcodec (of_run_exportValue hid hdirect hvalue)
    have hplain : f ≠ Flavor.plainText := by
      rintro rfl
      exact absurd hf (by decide +kernel)
    exact Or.inl ⟨hf, paths, data_of_request hplain hrequest, hlisted⟩

/-- A file is listed, and a text is not taken for a list of files. -/
theorem exportFrom_toFileList_text :
    let native : NativeFormat :=
      { id := .dropFiles, name := "FILES", kind := .fileList, localeDependent := false, text := none }
    let e := ofFormat native
    e.fileCodec = DropFiles.codec ∧ e.table.isFileList native.id = true ∧
      ((e.exportFrom (.ofFiles ["/a"]) Flavor.fileList native.id).run .empty).1
        = .ok (some (DropFiles.encode ["/a"])) ∧
      ∀ bytes, ((e.exportFrom (.ofText ['x']) Flavor.string native.id).run .empty).1
        ≠ .ok (some bytes) := by
  intro native e
  have hid : e.table.isFileList native.id = true := by decide +kernel
  have hpieces : Path.pieces "/a" = ["", "a"] := by decide +kernel
  have habsolute : Path.isAbsolute "/a" = true := by decide +kernel
  have hnowhere : e.host.files.resolve? "/a" = none := by
    simp [e, ofFormat, new, FileSystem.resolve?, hpieces, habsolute, FileSystem.walk,
      FileSystem.isDirectoryAt, FileSystem.node?]
  have hpermission : e.permissionFor (.ofFiles ["/a"]) = none := rfl
  have hlisted : FileExport.exportable e.host.files e.cacheDirs (e.permissionFor (.ofFiles ["/a"]))
      ["/a"] = ["/a"] := by
    simp [FileExport.exportable, hpermission, FileSystem.canonicalOrAbsolute,
      FileSystem.canonicalize?, hnowhere, habsolute]
  obtain ⟨hfiles, -⟩ := exportFrom_toFileList (e := e) rfl hid (.ofFiles ["/a"]) Flavor.fileList .empty
  obtain ⟨-, htext, -⟩ := exportFrom_toFileList (e := e) rfl hid (.ofText ['x']) Flavor.string .empty
  refine ⟨rfl, hid, ?_, ?_⟩
  · rw [hfiles ["/a"] (by decide +kernel) (Source.data_ofFiles ["/a"]), hlisted]
  · intro bytes hbytes
    rcases htext bytes hbytes with ⟨hf, -⟩ | ⟨v, asString, hrequest, hdirect⟩
    · exact absurd hf (by decide +kernel)
    · have hstring : request (.ofText ['x']) Flavor.string = .ok (some (.string ['x'], false)) := rfl
      cases hstring.symm.trans hrequest
      exact absurd hdirect (by decide +kernel)

/-- Three bytes are taken for a list of files, though the flavor is not one of files. -/
theorem exportFrom_toFileList_bytes :
    let native : NativeFormat :=
      { id := .dropFiles, name := "FILES", kind := .fileList, localeDependent := false, text := none }
    let blob := Flavor.ofParts "application" "x-blob" [] .byteArray
    let source : Source :=
      { flavors := [blob], data := fun _ => .ok (some (.byteArray [0x61, 0x62, 0x63])),
        permission := none }
    (ofFormat native).table.isFileList native.id = true ∧ blob.isFileList = false ∧
      (((ofFormat native).exportFrom source blob native.id).run .empty).1
        = .ok (some [0x61, 0x62, 0x63]) := by
  intro native blob source
  refine ⟨by decide +kernel, by decide +kernel, ?_⟩
  exact run_exportFrom_bytes rfl rfl (Or.inl rfl) (by decide +kernel)

end Engine

end Clipboard
