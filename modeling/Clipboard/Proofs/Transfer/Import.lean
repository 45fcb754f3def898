import Clipboard.Proofs.Charset
import Clipboard.Proofs.Reencoder
import Clipboard.Proofs.TextClassifier
import Clipboard.Transfer.Import

/-!
# What is made of the bytes of a text format

A flavor of charset text is answered in one of seven representations. `importedText` is the text that
the value is: a reader and a stream have the one that is found among the characters as they come, the
others the one that is found among the bytes (`run_importWhole`). Which bytes hold the same text is
for `decodeText` and `reencoded` to say: where these agree, so do the values
(`run_importWhole_congr`).
-/

namespace Clipboard

open NativeText (textOf contentOf fromNativeLines untilTerminator)

/-- The value is the text: these are its characters, or its bytes are those of the charset. -/
def TransferValue.IsText (cs : Charset) (text : List Char) (v : TransferValue) : Prop :=
  if v.representation.isEncodedText then v.requireBytes = .ok (cs.encode text)
  else v.requireText = .ok text

theorem ByteStream.requireAll_ofBytes (bytes : Bytes) :
    (ByteStream.ofBytes bytes).requireAll = .ok bytes := by
  simp [requireAll, readAll]

theorem TransferValue.readText_ofBytes (text : List Char) :
    readText (.ofBytes (Charset.utf8.encode text)) = .ok text := by
  have hutf8 : Charset.utf8.encode text = Utf8.encode text := Charset.encode_eq .utf8 text
  simp only [readText, ByteStream.requireAll_ofBytes, hutf8, Utf8.decode?_encode]

theorem TransferValue.isText_reader {s : ByteStream} {text : List Char} (cs : Charset)
    (h : readText s = .ok text) : (reader s).IsText cs text := h

theorem TransferValue.isText_stream {s : ByteStream} {text : List Char} {cs : Charset}
    (h : s.requireAll = .ok (cs.encode text)) : (stream s).IsText cs text := h

/-- Whether a value of the representation is read piece by piece. -/
def Representation.isLazy : Representation → Bool
  | .reader | .stream => true
  | _ => false

/-- The text that bytes are imported as. -/
def NativeText.importedText (rep : Representation) (cs : Charset) (props : TextProperties)
    (bytes : Bytes) : List Char :=
  if rep.isLazy then textOf props (CharReader.new cs (.ofBytes bytes)).readRest.1
  else fromNativeLines props (cs.decode (untilTerminator props.terminators bytes))

namespace TextClassifier

variable {f : Flavor} {memo : SubtypeMemo}

/-- Charset text is in one of seven representations. -/
theorem representation_of_isCharsetText (h : ((isCharsetText f).run memo).1 = true) :
    f.representation.isDecodedText = true ∨ f.representation.isEncodedText = true := by
  unfold isCharsetText at h
  split at h
  · next hf => exact Or.inl (by rw [hf]; rfl)
  · split at h
    · cases h
    · simp only [Memoized.run_bind, Memoized.run_pure, Bool.and_eq_true] at h
      rcases Bool.or_eq_true_iff.mp h.2 with hdecoded | hencoded
      · exact Or.inl hdecoded
      · exact Or.inr (Bool.and_eq_true_iff.mp hencoded).1

/-- Charset text is no list of files. -/
theorem isFileList_of_isCharsetText (h : ((isCharsetText f).run memo).1 = true) :
    f.isFileList = false := by
  have hfiles : f.representation ≠ .fileList := by
    intro hrep
    have hshape := representation_of_isCharsetText h
    rw [hrep] at hshape
    exact absurd hshape (by decide)
  simp [Flavor.isFileList, hfiles]

/-- Once the question has been asked, nothing about the flavor is left to decide. -/
theorem isCharsetText_settled (h : ((isCharsetText f).run memo).1 = true) :
    (isCharsetText f).run ((isCharsetText f).run memo).2
      = (true, ((isCharsetText f).run memo).2) :=
  isCharsetText_again h (SubtypeMemo.Extends.refl _)

end TextClassifier

open NativeText (importedText)

namespace Engine

/-- The flavor is one of charset text, its bytes, if it is one of bytes, in a charset. -/
structure TextFlavor (e : Engine) (memo : SubtypeMemo) (f : Flavor) (cs : Charset) : Prop where
  charsetText : ((TextClassifier.isCharsetText f).run memo).1 = true
  charset : f.representation.isEncodedText = true →
    Charset.ofName? (f.charset?.getD e.defaultCharset) = some cs

/-- The texts of the format have these properties and are read in this charset. -/
structure ReadsIn (e : Engine) (id : FormatId) (locale? : Option Source) (props : TextProperties)
    (cs : Charset) : Prop where
  properties : e.table.textProperties? id = some props
  charset : ∃ name, e.bestCharset id locale? = .ok name ∧ Charset.ofName? name = some cs

variable {e : Engine} {id : FormatId} {locale? : Option Source} {props : TextProperties}
  {cs read : Charset} {f : Flavor} {memo : SubtypeMemo}

/-- An engine that knows one format, on a machine without files. -/
def ofFormat (native : NativeFormat) : Engine :=
  new { files := { nodes := [], current := [] }, environment := .ofList [] }
    { natives := [native], formatsOf := [], flavorsOf := [] } "UTF-8"

theorem native?_ofFormat (native : NativeFormat) :
    (ofFormat native).table.native? native.id = some native := by
  simp [ofFormat, new, FormatTable.native?]

theorem readsIn_ofFormat {native : NativeFormat} (htext : native.text = some props)
    (hcharset : Charset.ofName? props.charset = some cs) :
    (ofFormat native).ReadsIn native.id none props cs := by
  have hprops : (ofFormat native).table.textProperties? native.id = some props := by
    simp [FormatTable.textProperties?, native?_ofFormat, htext]
  exact ⟨hprops, props.charset, by simp [bestCharset, hprops, Except.map], hcharset⟩

/-! ## What is asked about the format and the flavor -/

theorem ReadsIn.isText_eq (h : e.ReadsIn id locale? props cs) : e.table.isText id = true := by
  simp [FormatTable.isText, h.properties]

theorem ReadsIn.textProperties_eq (h : e.ReadsIn id locale? props cs) :
    e.textProperties id = props := by
  simp [textProperties, h.properties]

theorem TextFlavor.settled (h : e.TextFlavor memo f cs) :
    e.TextFlavor ((TextClassifier.isCharsetText f).run memo).2 f cs :=
  ⟨by rw [TextClassifier.isCharsetText_settled h.charsetText], h.charset⟩

theorem run_isCharsetText (htext : e.table.isText id = true)
    (h : ((TextClassifier.isCharsetText f).run memo).1 = true) :
    (e.isCharsetText f id).run memo = (.ok true, ((TextClassifier.isCharsetText f).run memo).2) := by
  rw [isCharsetText, Transfer.run_bind, Transfer.run_ask, h]
  simp [htext]

theorem run_flavorCharset (h : (TextClassifier.isCharsetText f).run memo = (true, memo)) :
    (e.flavorCharset f).run memo = (.ok (f.charset?.getD e.defaultCharset), memo) := by
  rw [flavorCharset, Transfer.run_ask, TextClassifier.textCharset_run h]
  rfl

/-! ## The text of bytes -/

theorem run_decodeText (h : e.ReadsIn id locale? props cs) (bytes : Bytes) :
    (e.decodeText bytes id locale?).run memo
      = (.ok (fromNativeLines props (cs.decode (untilTerminator props.terminators bytes))), memo) := by
  obtain ⟨name, hname, hcs⟩ := h.charset
  rw [decodeText, hname, Transfer.run_bind_of_ok (Transfer.run_ofExcept_ok _ _),
    h.textProperties_eq, NativeText.decode, Option.getD_some, Charset.require, hcs,
    Transfer.run_lift_ok]

theorem run_flavorBytes (h : e.ReadsIn id locale? props cs)
    (hask : (TextClassifier.isCharsetText f).run memo = (true, memo))
    (hread : Charset.ofName? (f.charset?.getD e.defaultCharset) = some read) (bytes : Bytes) :
    (e.flavorBytes bytes f id locale?).run memo
      = (.ok (read.encode
          (fromNativeLines props (cs.decode (untilTerminator props.terminators bytes)))), memo) := by
  have hcharsetText : (e.isCharsetText f id).run memo = (.ok true, memo) := by
    rw [run_isCharsetText h.isText_eq (by rw [hask]), hask]
  rw [flavorBytes, Transfer.run_bind_of_ok hcharsetText, if_pos rfl,
    Transfer.run_bind_of_ok (run_decodeText h bytes),
    Transfer.run_bind_of_ok (run_flavorCharset hask), Charset.require, hread]
  rw [Transfer.run_bind_of_ok (Transfer.run_lift_ok _ _)]
  rfl

/-- A stream of bytes of the format is a stream of the text, in any charset. -/
theorem run_reencoded (h : e.ReadsIn id locale? props cs)
    (hmarker : props.terminators = 0 ∨ ∀ eoln ∈ props.eoln, '\x00' ∉ eoln.toList)
    (bytes : Bytes) (target : Charset) :
    (e.reencoded (.ofBytes bytes) id target locale?).run memo
      = (.ok (.ofBytes (contentOf cs target props bytes)), memo) := by
  obtain ⟨name, hname, hcs⟩ := h.charset
  have hgives := NativeText.Reencoder.gives_new cs target hmarker (ByteStream.ending_ofBytes bytes)
  rw [reencoded, hname, Transfer.run_bind_of_ok (Transfer.run_ofExcept_ok _ _), Charset.require, hcs]
  rw [Transfer.run_bind_of_ok (Transfer.run_lift_ok _ _), h.textProperties_eq,
    NativeText.Reencoder.toStream_of_gives hgives, ByteStream.toBytes_ofBytes, Transfer.run_pure]

/-! ## Values -/

/-- **The value that is made of bytes is their text**, in the representation that is asked for. -/
theorem run_importWhole (h : e.ReadsIn id locale? props cs)
    (hmarker : f.representation.isLazy = true →
      props.terminators = 0 ∨ ∀ eoln ∈ props.eoln, '\x00' ∉ eoln.toList)
    (hask : (TextClassifier.isCharsetText f).run memo = (true, memo))
    (hflavor : e.TextFlavor memo f read) (bytes : Bytes) :
    ∃ v, (e.importWhole bytes f id true locale?).run memo = (.ok v, memo) ∧
      v.representation = f.representation ∧
      v.IsText read (importedText f.representation cs props bytes) := by
  have hshape := TextClassifier.representation_of_isCharsetText hflavor.charsetText
  have hread := hflavor.charset
  cases hrep : f.representation with
  | charArray =>
    refine ⟨.charArray _, ?_, rfl, rfl⟩
    simp only [importWhole, hrep, if_true]
    exact Transfer.run_bind_of_ok (run_decodeText h bytes)
  | string =>
    refine ⟨.string _, ?_, rfl, rfl⟩
    simp only [importWhole, hrep, if_true]
    exact Transfer.run_bind_of_ok (run_decodeText h bytes)
  | charBuffer =>
    refine ⟨.charBuffer _, ?_, rfl, rfl⟩
    simp only [importWhole, hrep, if_true]
    exact Transfer.run_bind_of_ok (run_decodeText h bytes)
  | reader =>
    have hstream : (e.reencoded (.ofBytes bytes) id .utf8 locale?).run memo = _ :=
      run_reencoded h (hmarker (by rw [hrep]; rfl)) bytes .utf8
    refine ⟨.reader (.ofBytes (contentOf cs .utf8 props bytes)), ?_, rfl, ?_⟩
    · simp only [importWhole, hrep, importReader, if_true]
      exact Transfer.run_bind_of_ok hstream
    · exact TransferValue.isText_reader read (TransferValue.readText_ofBytes _)
  | byteArray =>
    refine ⟨.byteArray _, ?_, rfl, rfl⟩
    simp only [importWhole, hrep]
    exact Transfer.run_bind_of_ok (run_flavorBytes h hask (hread (by rw [hrep]; rfl)) bytes)
  | byteBuffer =>
    refine ⟨.byteBuffer _, ?_, rfl, rfl⟩
    simp only [importWhole, hrep]
    exact Transfer.run_bind_of_ok (run_flavorBytes h hask (hread (by rw [hrep]; rfl)) bytes)
  | stream =>
    have hstream : (e.reencoded (.ofBytes bytes) id read locale?).run memo = _ :=
      run_reencoded h (hmarker (by rw [hrep]; rfl)) bytes read
    refine ⟨.stream (.ofBytes (contentOf cs read props bytes)), ?_, rfl, ?_⟩
    · simp only [importWhole, hrep, importByteStream, if_true]
      rw [Transfer.run_bind_of_ok (run_flavorCharset hask), Charset.require,
        hread (by rw [hrep]; rfl)]
      rw [Transfer.run_bind_of_ok (Transfer.run_lift_ok _ _)]
      exact Transfer.run_bind_of_ok hstream
    · exact TransferValue.isText_stream (ByteStream.requireAll_ofBytes _)
  | fileList | image | serializable | remote =>
    rw [hrep] at hshape
    exact absurd hshape (by decide)

/-- **Bytes of the same text are made into the same value.** -/
theorem run_importWhole_congr {a b : Bytes} (h : e.ReadsIn id locale? props cs)
    (hmarker : f.representation.isLazy = true →
      props.terminators = 0 ∨ ∀ eoln ∈ props.eoln, '\x00' ∉ eoln.toList)
    (hask : (TextClassifier.isCharsetText f).run memo = (true, memo))
    (hsame : importedText f.representation cs props a = importedText f.representation cs props b) :
    (e.importWhole a f id true locale?).run memo = (e.importWhole b f id true locale?).run memo := by
  have hshape := TextClassifier.representation_of_isCharsetText (congrArg Prod.fst hask)
  have hcharsetText : (e.isCharsetText f id).run memo = (.ok true, memo) := by
    rw [run_isCharsetText h.isText_eq (by rw [hask]), hask]
  have hdecode (hrep : f.representation.isLazy = false) (memo : SubtypeMemo) :
      (e.decodeText a id locale?).run memo = (e.decodeText b id locale?).run memo := by
    simp only [importedText, hrep, Bool.false_eq_true, if_false] at hsame
    rw [run_decodeText h, run_decodeText h, hsame]
  have hreencoded (hrep : f.representation.isLazy = true) (target : Charset) (memo : SubtypeMemo) :
      (e.reencoded (.ofBytes a) id target locale?).run memo
        = (e.reencoded (.ofBytes b) id target locale?).run memo := by
    simp only [importedText, hrep, if_true] at hsame
    rw [run_reencoded h (hmarker hrep), run_reencoded h (hmarker hrep), contentOf,
      contentOf, hsame]
  cases hrep : f.representation with
  | charArray | string | charBuffer =>
    simp only [importWhole, hrep, if_true, Transfer.run_bind, hdecode (by rw [hrep]; rfl)]
  | byteArray | byteBuffer =>
    simp only [importWhole, hrep, flavorBytes, Transfer.run_bind, hcharsetText, if_true,
      hdecode (by rw [hrep]; rfl)]
  | reader =>
    simp only [importWhole, hrep, importReader, if_true, Transfer.run_bind,
      hreencoded (by rw [hrep]; rfl)]
  | stream =>
    simp only [importWhole, hrep, importByteStream, if_true, Transfer.run_bind,
      hreencoded (by rw [hrep]; rfl)]
  | fileList | image | serializable | remote =>
    rw [hrep] at hshape
    exact absurd hshape (by decide)

/-- **The bytes of a text format are imported as their text.** -/
theorem run_importBytes (h : e.ReadsIn id locale? props cs) (hfiles : e.table.isFileList id = false)
    (hmarker : f.representation.isLazy = true →
      props.terminators = 0 ∨ ∀ eoln ∈ props.eoln, '\x00' ∉ eoln.toList)
    (hflavor : e.TextFlavor memo f read) (bytes : Bytes) :
    ∃ v, (e.importBytes bytes f id locale?).run memo
        = (.ok (some v), ((TextClassifier.isCharsetText f).run memo).2) ∧
      v.representation = f.representation ∧
      v.IsText read (importedText f.representation cs props bytes) := by
  have hask := TextClassifier.isCharsetText_settled hflavor.charsetText
  obtain ⟨v, hrun, hv⟩ := run_importWhole h hmarker hask hflavor.settled bytes
  refine ⟨v, ?_, hv⟩
  have huris : f.isFileList = false := TextClassifier.isFileList_of_isCharsetText hflavor.charsetText
  rw [importBytes, if_neg (by simp [hfiles]), if_neg (by simp [huris]),
    Transfer.run_bind_of_ok (run_isCharsetText h.isText_eq hflavor.charsetText)]
  exact Transfer.run_bind_of_ok hrun

end Engine

end Clipboard
