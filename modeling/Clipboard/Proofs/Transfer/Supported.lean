import Clipboard.Proofs.Transfer.Failures

/-!
# Conversions that are supported

Much can go wrong with a conversion: a charset is not known, bytes are no image, a stream fails.
That there is no conversion at all is another matter: it depends on the flavor and the format, and
not on the data. A result that is anything but that is `Supported`.

With the standard codecs all that is done with characters, bytes, paths and objects is supported. So
a format takes a value of a flavor if it is of the right kind, and is one of text where characters
are to be written (`FormatTable.accepts`), and it yields one on like terms (`FormatTable.yields`).
Any other format neither takes nor yields it, whatever the data.
-/

namespace Clipboard

/-- The error is not that there is no conversion. -/
def Error.IsSupported (err : Error) : Prop := ∀ fault, err ≠ .unsupportedConversion fault

/-- The result is not that there is no conversion. -/
def Supported {α : Type} (x : Except Error α) : Prop :=
  ∀ fault, x ≠ .error (.unsupportedConversion fault)

theorem supported_iff {α : Type} {x : Except Error α} :
    Supported x ↔ FailsWith Error.IsSupported x := by
  constructor
  · rintro h err herr fault rfl
    exact h fault herr
  · intro h fault herr
    exact h _ herr fault rfl

/-- The conversion, when these decisions have been made, does not fail for there being none. -/
def Transfer.SupportedAt {α : Type} (x : Transfer α) (memo : SubtypeMemo) : Prop :=
  ∀ fault, (x.run memo).1 ≠ .error (.error (.unsupportedConversion fault))

theorem Transfer.supportedAt_iff {α : Type} {x : Transfer α} {memo : SubtypeMemo} :
    x.SupportedAt memo ↔ x.FailsWithAt Error.IsSupported memo := by
  constructor
  · rintro h err herr fault rfl
    exact h fault herr
  · intro h fault herr
    exact h _ herr fault rfl

/-- What is wrong with the data is not that there is no conversion. -/
theorem Error.isSupported_of_isOfData {err : Error} (h : err.isOfData = true) :
    err.IsSupported := by
  rintro fault rfl
  cases h

theorem supported_require (name : String) : Supported (Charset.require name) := by
  intro fault h
  rw [Charset.require] at h
  split at h <;> cases h

/-- Whatever becomes of the charset of file URIs, it is not that there is no conversion. -/
theorem supported_bind_require {α : Type} {next : Charset → Except Error α} (t : FormatTable)
    (id : FormatId) (hnext : ∀ charset, Supported (next charset)) :
    Supported (t.require id >>= fun native => Charset.require native.uriCharset >>= next) := by
  refine supported_iff.mpr (.bind ?_ (fun native => .bind ?_ (fun charset => ?_)))
  · exact (t.failsByData_require id).mono (fun _ => Error.isSupported_of_isOfData)
  · exact supported_iff.mp (supported_require native.uriCharset)
  · exact supported_iff.mp (hnext charset)

/-! ## Formats and flavors -/

namespace FormatKind

/-- Whether it is a kind of files. -/
def isOfFiles : FormatKind → Bool
  | .fileList | .uriList => true
  | .plain | .image => false

/-- Whether a format of the kind, which may be one of text, takes values of a flavor, which may be
one of charset text. -/
def accepts (kind : FormatKind) (isText : Bool) (f : Flavor) (charsetText : Bool) : Bool :=
  match f.representation with
  | .image => kind = .image
  | .reader | .charBuffer => isText
  | .charArray => charsetText && isText
  | .string => charsetText && isText || !kind.isOfFiles
  | .byteArray | .byteBuffer => true
  | .fileList => f.isFileList || !kind.isOfFiles
  | .stream | .serializable | .remote => !kind.isOfFiles

/-- Whether a format of the kind, which may be one of text, yields values of a flavor, which may be
one of charset text. -/
def yields (kind : FormatKind) (isText : Bool) (f : Flavor) (charsetText : Bool) : Bool :=
  if kind = .fileList then f.isFileList
  else
    match f.representation with
    | .image => kind = .image
    | .reader | .charBuffer => isText
    | .charArray => charsetText && isText
    | .string | .byteArray | .byteBuffer | .stream | .fileList | .serializable | .remote => true

end FormatKind

namespace FormatTable

variable {t : FormatTable} {id : FormatId}

/-- The kind of a format; one that is not registered is as good as plain. -/
def kindOf (t : FormatTable) (id : FormatId) : FormatKind := (t.kind? id).getD .plain

theorem isImage_iff : t.isImage id = true ↔ t.kindOf id = .image := by
  rw [isImage, kindOf]
  cases t.kind? id <;> simp

theorem isFileList_iff : t.isFileList id = true ↔ t.kindOf id = .fileList := by
  rw [isFileList, kindOf]
  cases t.kind? id <;> simp

theorem isUriList_iff : t.isUriList id = true ↔ t.kindOf id = .uriList := by
  rw [isUriList, kindOf]
  cases t.kind? id <;> simp

def accepts (t : FormatTable) (id : FormatId) (f : Flavor) (charsetText : Bool) : Bool :=
  (t.kindOf id).accepts (t.isText id) f charsetText

def yields (t : FormatTable) (id : FormatId) (f : Flavor) (charsetText : Bool) : Bool :=
  (t.kindOf id).yields (t.isText id) f charsetText

/-- Characters are taken where they are yielded. -/
theorem accepts_of_yields {f : Flavor} {charsetText : Bool} (hrep : f.representation.isChars = true)
    (h : t.yields id f charsetText = true) : t.accepts id f charsetText = true := by
  rw [yields, FormatKind.yields] at h
  rw [accepts, FormatKind.accepts]
  split at h
  · have hfiles : f.representation = .fileList := of_decide_eq_true (Bool.and_eq_true_iff.mp h).1
    rw [hfiles] at hrep
    cases hrep
  · cases hf : f.representation with
    | reader | charBuffer | charArray =>
      rw [hf] at h
      exact h
    | _ => exact absurd hrep (by rw [hf]; decide)

end FormatTable

namespace Engine

variable {e : Engine} {source : Source} {f : Flavor} {id : FormatId} {memo after : SubtypeMemo}
  {v : TransferValue} {bytes : Bytes} {locale? : Option Source}

/-- A source that is asked for the charset does not answer that there is no conversion. -/
def NamesCharset (locale? : Option Source) : Prop :=
  ∀ s ∈ locale?, ∀ fault,
    s.data Flavor.textEncoding ≠ .error (.error (.unsupportedConversion fault))

theorem isSupported_of_bestCharset (hlocale : NamesCharset locale?) {err : Error}
    (h : e.bestCharset id locale? = .error (.error err)) : err.IsSupported := by
  rintro fault rfl
  unfold bestCharset at h
  cases locale? with
  | none => cases h
  | some s =>
    dsimp only at h
    split at h
    · cases hdata : s.data Flavor.textEncoding with
      | error failure =>
        rw [suppliedCharset, hdata] at h
        cases h
        exact hlocale s rfl fault hdata
      | ok answer =>
        rw [suppliedCharset, hdata] at h
        cases answer with
        | none => cases h
        | some v => cases v <;> cases h
    · cases h

/-- Where characters are taken they go through the charset of the format. -/
theorem takesCharset_of_accepts (hrep : f.representation.isChars = true)
    (hchars : f.representation = .reader ∨ f.representation = .charBuffer →
      ((TextClassifier.isCharsetText f).run memo).1 = true)
    (haccepts : e.table.accepts id f ((TextClassifier.isCharsetText f).run memo).1 = true) :
    e.takesCharset f id memo = true := by
  rw [FormatTable.accepts, FormatKind.accepts] at haccepts
  rw [takesCharset]
  cases hf : f.representation with
  | reader =>
    rw [hf] at haccepts
    rw [hchars (.inl hf), Bool.true_and]
    exact haccepts
  | charBuffer =>
    rw [hf] at haccepts
    rw [hchars (.inr hf), Bool.true_and]
    exact haccepts
  | charArray =>
    rw [hf] at haccepts
    exact haccepts
  | _ =>
    rw [hf] at hrep
    cases hrep

/-- Neither data nor charsets make a conversion one that there is not. -/
theorem failsAtMost_isSupported (he : e.IsStandard) (hlocale : NamesCharset locale?) (f : Flavor)
    (id : FormatId) : e.FailsAtMost Error.IsSupported f id locale? where
  standard := he
  data _ := Error.isSupported_of_isOfData
  format := supported_iff.mp (supported_require _)
  flavor _ _ := supported_iff.mp (supported_require _)
  asking _ := isSupported_of_bestCharset hlocale
  best _ _ := supported_iff.mp (supported_require _)

/-! ## Export -/

theorem supported_exportUris (hf : f.isFileList = true) (e : Engine) (source : Source)
    (id : FormatId) (paths : List Path) :
    Supported (e.exportUris source f id (.fileList paths)) := by
  refine supported_bind_require e.table id (fun charset => supported_iff.mpr ?_)
  exact (failsWith_exportablePaths (.inl ⟨hf, paths, rfl⟩) e source).bind (fun _ => .of_ok _)

/-- **A value of its flavor's representation goes to a format that takes it**, if the text that a
reader or a buffer of characters holds is charset text. -/
theorem supportedAt_exportFrom (he : e.IsStandard) (hdata : source.data f = .ok (some v))
    (hrep : v.representation = f.representation)
    (hchars : f.representation = .reader ∨ f.representation = .charBuffer →
      ((TextClassifier.isCharsetText f).run memo).1 = true)
    (haccepts : e.table.accepts id f ((TextClassifier.isCharsetText f).run memo).1 = true) :
    (e.exportFrom source f id).SupportedAt memo := by
  have hfails : e.FailsAtMost Error.IsSupported f id none :=
    failsAtMost_isSupported he (fun s hs => by cases hs) f id
  have hexpected : v.representation = expected f false := hrep
  have htext : v.representation.isChars = true → e.takesCharset f id memo = true := by
    intro hv
    rw [hrep] at hv
    exact takesCharset_of_accepts hv hchars haccepts
  rw [FormatTable.accepts, FormatKind.accepts, ← hrep] at haccepts
  have himage : v.representation = .image → e.table.isImage id = true := by
    intro hv
    rw [hv] at haccepts
    exact FormatTable.isImage_iff.mpr (of_decide_eq_true haccepts)
  -- an object goes to a format of files only if it is one of files
  have hfiles (hv : isObject v = true)
      (hdirect : v.isDirect (e.takesCharset f id memo) false = false)
      (hid : (e.table.kindOf id).isOfFiles = true) :
      f.isFileList = true ∧ ∃ paths, v = .fileList paths := by
    rw [hid] at haccepts
    cases v with
    | fileList paths =>
      have hf : (f.isFileList || false) = true := haccepts
      rw [Bool.or_false] at hf
      exact ⟨hf, paths, rfl⟩
    | string text =>
      have htakes : (e.takesCharset f id memo || false) = true := haccepts
      rw [Bool.or_false] at htakes
      rw [htakes] at hdirect
      cases hdirect
    | stream _ | serializable _ | remote _ => cases haccepts
    | _ => cases hv
  have hvalue : (e.exportValue source f id false v).FailsWithAt Error.IsSupported memo := by
    refine hfails.failsWithAt_exportValue hexpected (fun hv => .inl (htext hv))
      (fun hv => .inl (himage hv)) (fun hv hdirect after => ?_)
    refine hfails.failsWithAt_exportObject hexpected hv (fun hid => ?_) (fun hid => ?_) after
    · have hkind := FormatTable.isFileList_iff.mp hid
      exact failsWith_exportablePaths (.inl (hfiles hv hdirect (by rw [hkind]; rfl))) e source
    · have hkind := FormatTable.isUriList_iff.mp hid
      obtain ⟨hf, paths, rfl⟩ := hfiles hv hdirect (by rw [hkind]; rfl)
      exact supported_iff.mp (supported_exportUris hf e source id paths)
  refine Transfer.supportedAt_iff.mpr (fun err h => ?_)
  rw [run_exportFrom_of_representation hdata hrep] at h
  exact hvalue.map some err h

/-- Only files of a flavor of files are paths to export. -/
theorem of_exportablePaths {paths : List Path} (h : e.exportablePaths source f v = .ok paths) :
    f.isFileList = true ∧ v.representation = .fileList := by
  cases v with
  | fileList listed =>
    rw [exportablePaths] at h
    split at h
    · next hf => exact ⟨hf, rfl⟩
    · cases h
  | _ => cases h

/-- Of objects only files of a flavor of files are written to a format of files. -/
theorem of_run_exportObject (hid : (e.table.kindOf id).isOfFiles = true)
    (h : (e.exportObject source f id v).run memo = (.ok bytes, after)) :
    f.isFileList = true ∧ v.representation = .fileList := by
  unfold exportObject at h
  split at h
  · have hfiles := Transfer.of_run_lift h
    rw [exportFiles] at hfiles
    split at hfiles
    · cases hfiles
    · next paths hpaths => exact of_exportablePaths hpaths
  · next hfiles =>
    have huris : e.table.isUriList id = true := by
      rw [FormatTable.isFileList_iff] at hfiles
      rw [FormatTable.isUriList_iff]
      cases hkind : e.table.kindOf id with
      | uriList => rfl
      | fileList => exact absurd hkind hfiles
      | plain | image =>
        rw [hkind] at hid
        cases hid
    rw [if_pos huris] at h
    obtain ⟨native, -, h⟩ := of_bind_eq_ok (Transfer.of_run_lift h)
    obtain ⟨charset, -, h⟩ := of_bind_eq_ok h
    obtain ⟨paths, hpaths, -⟩ := of_bind_eq_ok h
    exact of_exportablePaths hpaths

theorem of_exportChars {charsetText : Bool} {rep : Representation}
    {text : Unit → Except Error (List Char)}
    (h : e.exportChars id charsetText rep text = .ok bytes) : charsetText = true := by
  rw [exportChars] at h
  split at h
  · next htext => exact htext
  · cases h

theorem of_exportImage {image : Image} (h : e.exportImage id image = .ok bytes) :
    e.table.isImage id = true := by
  rw [exportImage] at h
  split at h
  · next hid => exact hid
  · cases h

/-- **A value of its flavor's representation only goes to a format that takes it.** -/
theorem accepts_of_run_exportFrom (hdata : source.data f = .ok (some v))
    (hrep : v.representation = f.representation)
    (h : (e.exportFrom source f id).run memo = (.ok (some bytes), after)) :
    e.table.accepts id f ((TextClassifier.isCharsetText f).run memo).1 = true := by
  rw [run_exportFrom_of_representation hdata hrep] at h
  obtain ⟨written, _, hvalue, hpure⟩ := Transfer.of_run_bind h
  cases hpure
  rw [exportValue, Transfer.run_bind_of_ok (e.run_isCharsetText_eq f id memo)] at hvalue
  -- an object that has been written is one of files if the format is one of files
  have hobject {between : SubtypeMemo} (hv : v.representation ≠ .fileList)
      (h : (e.exportObject source f id v).run between = (.ok bytes, after)) :
      (!(e.table.kindOf id).isOfFiles) = true := by
    cases hid : (e.table.kindOf id).isOfFiles with
    | true => exact absurd (of_run_exportObject hid h).2 hv
    | false => rfl
  rw [FormatTable.accepts, FormatKind.accepts, ← hrep]
  cases v with
  | string text =>
    refine Bool.or_eq_true_iff.mpr ?_
    dsimp only at hvalue
    split at hvalue
    · next htext => exact Or.inl htext
    · exact Or.inr (hobject (fun hrep => by cases hrep) hvalue)
  | reader s =>
    have htext : e.takesCharset f id memo = true := of_exportChars (Transfer.of_run_lift hvalue)
    exact (Bool.and_eq_true_iff.mp htext).2
  | charBuffer text =>
    have htext : e.takesCharset f id memo = true := of_exportChars (Transfer.of_run_lift hvalue)
    exact (Bool.and_eq_true_iff.mp htext).2
  | charArray text => exact of_exportChars (Transfer.of_run_lift hvalue)
  | byteBuffer bytes => rfl
  | byteArray bytes => rfl
  | image image =>
    have hid := of_exportImage (Transfer.of_run_lift hvalue)
    exact decide_eq_true (FormatTable.isImage_iff.mp hid)
  | fileList paths =>
    refine Bool.or_eq_true_iff.mpr ?_
    cases hid : (e.table.kindOf id).isOfFiles with
    | true => exact Or.inl (of_run_exportObject hid hvalue).1
    | false => exact Or.inr rfl
  | stream s => exact hobject (fun hrep => by cases hrep) hvalue
  | serializable object => exact hobject (fun hrep => by cases hrep) hvalue
  | remote object => exact hobject (fun hrep => by cases hrep) hvalue

/-! ## Import -/

theorem supported_importUris (e : Engine) (bytes : Bytes) (id : FormatId) :
    Supported (e.importUris bytes id) :=
  supported_bind_require e.table id (fun _ => supported_iff.mpr (.of_ok _))

/-- **Bytes of a format that yields a flavor are made into a value of it**, or are not what they
should be, if the text of a reader or a buffer of characters is charset text. -/
theorem supportedAt_importBytes (he : e.IsStandard) (hlocale : NamesCharset locale?)
    (hchars : f.representation = .reader ∨ f.representation = .charBuffer →
      ((TextClassifier.isCharsetText f).run memo).1 = true)
    (hyields : e.table.yields id f ((TextClassifier.isCharsetText f).run memo).1 = true)
    (bytes : Bytes) : (e.importBytes bytes f id locale?).SupportedAt memo := by
  have hfails := failsAtMost_isSupported he hlocale f id
  have htext (hrep : f.representation.isChars = true) : e.takesCharset f id memo = true :=
    takesCharset_of_accepts hrep hchars (FormatTable.accepts_of_yields hrep hyields)
  refine Transfer.supportedAt_iff.mpr ?_
  rw [FormatTable.yields, FormatKind.yields] at hyields
  rw [importBytes]
  by_cases hfiles : e.table.isFileList id = true
  · rw [if_pos (FormatTable.isFileList_iff.mp hfiles)] at hyields
    rw [if_pos hfiles]
    exact .of_lift (hfails.failsWith_importFiles (.inl hyields) bytes) memo
  · rw [if_neg (fun hkind => hfiles (FormatTable.isFileList_iff.mpr hkind))] at hyields
    rw [if_neg hfiles]
    split
    · exact .map some (.of_lift (supported_iff.mp (e.supported_importUris bytes id)) memo)
    · refine .of_run (e.run_isCharsetText_eq f id memo) ?_
      refine .map some (hfails.failsWithAt_importWhole ?_ ?_ bytes _)
      · intro hrep
        exact .inl (htext hrep)
      · intro hrep
        rw [hrep] at hyields
        exact .inl (FormatTable.isImage_iff.mpr (of_decide_eq_true hyields))

theorem of_importFiles {v? : Option TransferValue} (h : e.importFiles bytes f = .ok v?) :
    f.isFileList = true := by
  rw [importFiles] at h
  split at h
  · next hf => exact hf
  · cases h

theorem charsetText_of_run_importWhole {charsetText : Bool}
    (h : (e.importWhole bytes f id charsetText locale?).run memo = (.ok v, after))
    (hrep : f.representation = .reader ∨ f.representation = .charBuffer ∨
      f.representation = .charArray) : charsetText = true := by
  cases charsetText with
  | true => rfl
  | false =>
    unfold importWhole at h
    rcases hrep with hrep | hrep | hrep
    all_goals
      rw [hrep] at h
      cases h

theorem isImage_of_run_importWhole {charsetText : Bool}
    (h : (e.importWhole bytes f id charsetText locale?).run memo = (.ok v, after))
    (hrep : f.representation = .image) : e.table.isImage id = true := by
  unfold importWhole at h
  rw [hrep] at h
  obtain ⟨native, _, hrun, -⟩ := Transfer.of_run_bind h
  have hnative : e.imageFormat id = .ok native := Transfer.of_run_lift hrun
  rw [imageFormat] at hnative
  split at hnative
  · next hid => exact hid
  · cases hnative

/-- **Values are only made of bytes of a format that yields the flavor.** -/
theorem yields_of_run_importBytes {v? : Option TransferValue}
    (h : (e.importBytes bytes f id locale?).run memo = (.ok v?, after)) :
    e.table.yields id f ((TextClassifier.isCharsetText f).run memo).1 = true := by
  rw [FormatTable.yields, FormatKind.yields]
  rw [importBytes] at h
  by_cases hfiles : e.table.isFileList id = true
  · rw [if_pos hfiles] at h
    rw [if_pos (FormatTable.isFileList_iff.mp hfiles)]
    exact of_importFiles (Transfer.of_run_lift h)
  · rw [if_neg hfiles] at h
    rw [if_neg (fun hkind => hfiles (FormatTable.isFileList_iff.mpr hkind))]
    have hwhole (hrep : f.representation ≠ .fileList) : ∃ between v last,
        (e.importWhole bytes f id (e.takesCharset f id memo) locale?).run between
          = (.ok v, last) := by
      have hnot : ¬(e.table.isUriList id && f.isFileList) = true := by
        simp [Flavor.isFileList, hrep]
      rw [if_neg hnot, Transfer.run_bind_of_ok (e.run_isCharsetText_eq f id memo)] at h
      obtain ⟨v, last, hv, -⟩ := Transfer.of_run_bind h
      exact ⟨_, v, last, hv⟩
    cases hrep : f.representation with
    | image =>
      obtain ⟨_, _, _, hv⟩ := hwhole (by rw [hrep]; decide)
      exact decide_eq_true (FormatTable.isImage_iff.mp (isImage_of_run_importWhole hv hrep))
    | reader =>
      obtain ⟨_, _, _, hv⟩ := hwhole (by rw [hrep]; decide)
      have htext := charsetText_of_run_importWhole hv (Or.inl hrep)
      exact (Bool.and_eq_true_iff.mp htext).2
    | charBuffer =>
      obtain ⟨_, _, _, hv⟩ := hwhole (by rw [hrep]; decide)
      have htext := charsetText_of_run_importWhole hv (Or.inr (Or.inl hrep))
      exact (Bool.and_eq_true_iff.mp htext).2
    | charArray =>
      obtain ⟨_, _, _, hv⟩ := hwhole (by rw [hrep]; decide)
      exact charsetText_of_run_importWhole hv (Or.inr (Or.inr hrep))
    | string | byteArray | byteBuffer | stream | fileList | serializable | remote => rfl

end Engine

end Clipboard
