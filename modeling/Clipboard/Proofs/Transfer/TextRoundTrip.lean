import Clipboard.Proofs.NativeText
import Clipboard.Proofs.Transfer.Export
import Clipboard.Proofs.Transfer.Import

/-!
# Text through a format and back

A text that an engine has exported to a text format (`run_exportFrom`) is imported again as the same
text (`run_importBytes`), in whatever flavors it is offered and asked for: a text is the same in all
seven representations (`TransferValue.IsText`), in bytes of any charset that keeps it.
-/

namespace Clipboard

open NativeText (Faithful Storable toNativeLines)

/-- The source has the text in a flavor, its bytes in a charset: it answers with it in the
representation of the flavor, or has it as a string in place of a plain text that is no stream. -/
def Source.Has (s : Source) (f : Flavor) (cs : Charset) (text : List Char) : Prop :=
  (∃ v, s.data f = .ok (some v) ∧ v.representation = f.representation ∧ v.IsText cs text) ∨
    (f = Flavor.plainText ∧ ∃ v, s.data f = .ok (some v) ∧ v.isStream = false ∧
      s.data Flavor.string = .ok (some (.string text)))

/-- A text that can be stored is the one that is imported, whatever stands behind the terminator. -/
theorem NativeText.importedText_stored {props : TextProperties} {cs : Charset} {text : List Char}
    (h : Faithful props cs) (ht : Storable props cs text) {extra : Bytes}
    (hextra : props.terminators = 0 → extra = []) (rep : Representation) :
    importedText rep cs props (stored props cs text ++ extra) = text := by
  have hlines : ∀ c ∈ toNativeLines props text, cs.Keeps c :=
    fun c hc => (kept_toNativeLines h ht c hc).2
  rw [importedText]
  split
  · rw [textOf, untilNul_readRest_stored h ht hextra, fromNativeLines_toNativeLines h ht]
  · rw [untilTerminator_stored h ht hextra, Charset.decode_encode hlines,
      fromNativeLines_toNativeLines h ht]

namespace Engine

/-- The format is one of plain text, faithful to a charset. -/
structure TextFormat (e : Engine) (id : FormatId) (props : TextProperties) (cs : Charset) : Prop where
  registered : ∃ native, e.table.native? id = some native ∧ native.kind = .plain ∧
    native.text = some props
  faithful : Faithful props cs

variable {e : Engine} {id : FormatId} {props : TextProperties} {cs : Charset} {text : List Char}
  {f : Flavor} {memo : SubtypeMemo} {source : Source}

/-! ## What is asked about the format -/

namespace TextFormat

theorem textProperties?_eq (h : e.TextFormat id props cs) :
    e.table.textProperties? id = some props := by
  obtain ⟨native, hnative, -, htext⟩ := h.registered
  simp [FormatTable.textProperties?, hnative, htext]

theorem kind?_eq (h : e.TextFormat id props cs) : e.table.kind? id = some .plain := by
  obtain ⟨native, hnative, hkind, -⟩ := h.registered
  simp [FormatTable.kind?, hnative, hkind]

theorem isFileList_eq (h : e.TextFormat id props cs) : e.table.isFileList id = false := by
  simp [FormatTable.isFileList, h.kind?_eq]

theorem isUriList_eq (h : e.TextFormat id props cs) : e.table.isUriList id = false := by
  simp [FormatTable.isUriList, h.kind?_eq]

/-- Without a source that names a charset the format is read in its own. -/
theorem readsIn (h : e.TextFormat id props cs) : e.ReadsIn id none props cs :=
  ⟨h.textProperties?_eq, props.charset, by simp [bestCharset, h.textProperties?_eq, Except.map],
    h.faithful.charset⟩

end TextFormat

/-! ## Export -/

theorem encodeText_of_textFormat (hformat : e.TextFormat id props cs) (text : List Char) :
    e.encodeText id text = .ok (NativeText.stored props cs text) := by
  rw [encodeText, hformat.readsIn.textProperties_eq, NativeText.encode_of_faithful hformat.faithful]

/-- Bytes that the flavor's charset reads as the text are written as the text. -/
theorem run_reencode {written : Charset} (hformat : e.TextFormat id props cs)
    (hask : (TextClassifier.isCharsetText f).run memo = (true, memo))
    (hname : Charset.ofName? (f.charset?.getD e.defaultCharset) = some written)
    (hkeeps : written.decode (written.encode text) = text) :
    (e.reencode f id (written.encode text)).run memo
      = (.ok (NativeText.stored props cs text), memo) := by
  have hcharsetText : (e.isCharsetText f id).run memo = (.ok true, memo) := by
    rw [run_isCharsetText hformat.readsIn.isText_eq (by rw [hask]), hask]
  rw [reencode, Transfer.run_bind_of_ok hcharsetText, if_pos rfl,
    Transfer.run_bind_of_ok (run_flavorCharset hask), Charset.require, hname]
  rw [Transfer.run_bind_of_ok (Transfer.run_lift_ok _ _), hkeeps,
    encodeText_of_textFormat hformat, Transfer.run_lift_ok]

/-- What is written of a value that is the text. -/
theorem run_exportValue {written : Charset} {v : TransferValue} {asString : Bool}
    (hformat : e.TextFormat id props cs) (hflavor : e.TextFlavor memo f written)
    (hkeeps : f.representation.isEncodedText = true → written.decode (written.encode text) = text)
    (hpermission : e.permissionFor source = none)
    (hrep : v.representation = f.representation) (hv : v.IsText written text) :
    (e.exportValue source f id asString v).run memo
      = (.ok (NativeText.stored props cs text), ((TextClassifier.isCharsetText f).run memo).2) := by
  have hask := TextClassifier.isCharsetText_settled hflavor.charsetText
  rw [exportValue, Transfer.run_bind_of_ok (run_isCharsetText hformat.readsIn.isText_eq hflavor.charsetText)]
  have hreencode : f.representation.isEncodedText = true →
      (e.reencode f id (written.encode text)).run ((TextClassifier.isCharsetText f).run memo).2
        = (.ok (NativeText.stored props cs text), ((TextClassifier.isCharsetText f).run memo).2) :=
    fun hbytes => run_reencode hformat hask (hflavor.charset hbytes) (hkeeps hbytes)
  have hencode := encodeText_of_textFormat hformat text
  have hshape := TextClassifier.representation_of_isCharsetText hflavor.charsetText
  rw [← hrep] at hreencode hshape
  cases v with
  | charArray chars | charBuffer chars =>
    cases hv
    simp [exportChars, hencode]
  | string chars =>
    cases hv
    simp [withoutSuspect, hpermission, hencode]
  | reader s =>
    have hread : TransferValue.readText s = .ok text := hv
    simp [exportChars, hread, hencode]
  | byteArray bytes | byteBuffer bytes =>
    cases hv
    exact hreencode rfl
  | stream s =>
    have hread : s.requireAll = .ok (written.encode text) := hv
    simp only [exportObject, hformat.isFileList_eq, hformat.isUriList_eq, Bool.false_eq_true,
      if_false, hread]
    rw [Transfer.run_bind_of_ok (Transfer.run_lift_ok _ _)]
    exact hreencode rfl
  -- charset text is in none of these
  | fileList paths | image i | serializable o | remote o =>
    rcases hshape with hdecoded | hencoded
    · cases hdecoded
    · cases hencoded

/-- **A text that a source has is exported.** -/
theorem run_exportFrom {written : Charset} (hformat : e.TextFormat id props cs)
    (hflavor : e.TextFlavor memo f written)
    (hkeeps : f.representation.isEncodedText = true → written.decode (written.encode text) = text)
    (hpermission : e.permissionFor source = none) (hhas : source.Has f written text) :
    (e.exportFrom source f id).run memo
      = (.ok (some (NativeText.stored props cs text)),
        ((TextClassifier.isCharsetText f).run memo).2) := by
  rcases hhas with ⟨v, hdata, hrep, hv⟩ | ⟨rfl, v, hdata, hstream, hstring⟩
  · exact run_exportFrom_of_ok (request_of_representation hdata hrep) hrep
      (run_exportValue hformat hflavor hkeeps hpermission hrep hv)
  -- plain text that is no byte stream: the source is asked for a string instead
  · have hrequest : request source Flavor.plainText = .ok (some (.string text, true)) := by
      rw [request, hdata]
      simp [hstream, hstring]
    have hvalue : (e.exportValue source Flavor.plainText id true (.string text)).run memo
        = (.ok (NativeText.stored props cs text),
          ((TextClassifier.isCharsetText Flavor.plainText).run memo).2) := by
      rw [exportValue, Transfer.run_bind_of_ok
        (run_isCharsetText hformat.readsIn.isText_eq hflavor.charsetText)]
      simp [withoutSuspect, hpermission, encodeText_of_textFormat hformat]
    exact run_exportFrom_of_ok hrequest rfl hvalue

/-! ## There and back -/

/-- **A text that is exported to a text format is imported from it again**, in any flavor: the
export succeeds, and from its bytes, with anything behind them if there is a terminator, every flavor
of charset text is answered with the text. -/
theorem importBytes_exportFrom {written : Charset} (hformat : e.TextFormat id props cs)
    (htext : Storable props cs text) (hengine : e.permission = none)
    (hsource : source.permission = none) (hflavor : e.TextFlavor memo f written)
    (hkeeps : f.representation.isEncodedText = true → written.decode (written.encode text) = text)
    (hhas : source.Has f written text) :
    ∃ bytes memo', (e.exportFrom source f id).run memo = (.ok (some bytes), memo') ∧
      ∀ extra, (props.terminators = 0 → extra = []) →
      ∀ target before read, e.TextFlavor before target read →
        ∃ v after, (e.importBytes (bytes ++ extra) target id none).run before
            = (.ok (some v), after) ∧
          v.representation = target.representation ∧ v.IsText read text := by
  have hpermission : e.permissionFor source = none := by
    rw [permissionFor, hsource, hengine]
    rfl
  refine ⟨_, _, run_exportFrom hformat hflavor hkeeps hpermission hhas, ?_⟩
  intro extra hextra target before read htarget
  have hnul : ∀ eoln ∈ props.eoln, '\x00' ∉ eoln.toList :=
    fun eoln heoln hc => (hformat.faithful.kept eoln heoln _ hc).1 rfl
  obtain ⟨v, hrun, hrep, hv⟩ := run_importBytes hformat.readsIn hformat.isFileList_eq
    (fun _ => Or.inr hnul) htarget (NativeText.stored props cs text ++ extra)
  rw [NativeText.importedText_stored hformat.faithful htext hextra] at hv
  exact ⟨v, _, hrun, hrep, hv⟩

/-- Two lines as Unicode text, with something behind the terminator, asked for as Latin-1. -/
theorem importBytes_exportFrom_unicode :
    let props : TextProperties := { charset := "UTF-16LE", eoln := some "\r\n", terminators := 2 }
    let native : NativeFormat :=
      { id := .unicodeText, name := "CF_UNICODETEXT", kind := .plain, localeDependent := false,
        text := some props }
    let e : Engine := new { files := { nodes := [], current := [] }, environment := .ofList [] }
      { natives := [native], formatsOf := [], flavorsOf := [] } "UTF-8"
    let source := Source.ofText ['a', '\n', 'é']
    let target := Flavor.ofParts "text" "plain" [(Flavor.charsetParam, "ISO-8859-1")] .byteArray
    ∃ bytes memo', (e.exportFrom source Flavor.string .unicodeText).run .empty
        = (.ok (some bytes), memo') ∧
      ∃ v after, (e.importBytes (bytes ++ [0x62]) target .unicodeText none).run .empty
          = (.ok (some v), after) ∧
        v.representation = .byteArray ∧ v.requireBytes = .ok [0x61, 0x0A, 0xE9] := by
  intro props native e source target
  have hmarker : ∀ c ∈ ['\r', '\n'], c ≠ '\x00' ∧ Charset.utf16le.Keeps c := by
    simp only [List.mem_cons, List.not_mem_nil, or_false, forall_eq_or_imp, forall_eq]
    decide +kernel
  have hchars : ∀ c ∈ ['a', '\n', 'é'], c ≠ '\x00' ∧ Charset.utf16le.Keeps c := by
    simp only [List.mem_cons, List.not_mem_nil, or_false, forall_eq_or_imp, forall_eq]
    decide +kernel
  have hformat : e.TextFormat .unicodeText props .utf16le :=
    { registered := ⟨native, rfl, rfl, rfl⟩
      faithful :=
        { charset := by decide +kernel
          terminators := Or.inr rfl
          unbordered := by decide
          kept := by
            rintro eoln ⟨⟩
            exact hmarker } }
  have htext : Storable props .utf16le ['a', '\n', 'é'] :=
    { kept := hchars, clear := by decide }
  have hstring : e.TextFlavor .empty Flavor.string .utf8 :=
    ⟨by decide +kernel, fun hbytes => by cases hbytes⟩
  have htarget : e.TextFlavor .empty target .latin1 :=
    ⟨by decide +kernel, fun _ => by decide +kernel⟩
  have hhas : source.Has Flavor.string .utf8 ['a', '\n', 'é'] :=
    Or.inl ⟨.string ['a', '\n', 'é'], rfl, rfl, rfl⟩
  obtain ⟨bytes, memo', hexport, himport⟩ :=
    importBytes_exportFrom hformat htext rfl rfl hstring (fun hbytes => by cases hbytes) hhas
  obtain ⟨v, after, hrun, hrep, hv⟩ := himport [0x62] (by decide) target .empty .latin1 htarget
  refine ⟨bytes, memo', hexport, v, after, hrun, hrep, ?_⟩
  have hencoded : Charset.latin1.encode ['a', '\n', 'é'] = [0x61, 0x0A, 0xE9] := by decide
  rw [TransferValue.IsText, hrep, if_pos (by rfl), hencoded] at hv
  exact hv

end Engine

end Clipboard
