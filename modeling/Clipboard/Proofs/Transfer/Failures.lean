import Clipboard.Proofs.Steps
import Clipboard.Proofs.Transfer.FileListFormat

/-!
# What conversions fail with

`FailsWith p x` says of what kind the error is if `x` fails, and `FailsWithAt` says it of a
conversion when some decisions about subtypes have been made. Both go through the steps that
something is made of. The standard codecs, and everything that reads a stream or an object, fail
with errors about the data alone (`FailsByData`).

If all that an engine does with data and with charsets fails with `p` alone (`Engine.FailsAtMost`),
then so does every conversion that there is. There may be none: where characters meet a format
without text, an image one without images, or anything but files one of files, `p` must allow that.
-/

namespace Clipboard

/-- If the result is a failure, its error is of a kind. -/
def FailsWith {α : Type} (p : Error → Prop) (x : Except Error α) : Prop :=
  ∀ err, x = .error err → p err

namespace FailsWith

variable {α β : Type} {p q : Error → Prop} {x : Except Error α}

theorem of_ok (a : α) : FailsWith p (.ok a : Except Error α) := by
  intro err h
  cases h

theorem of_error {err : Error} (h : p err) : FailsWith p (.error err : Except Error α) := by
  rintro _ ⟨⟩
  exact h

theorem mono (h : FailsWith p x) (hpq : ∀ err, p err → q err) : FailsWith q x :=
  fun err herr => hpq err (h err herr)

theorem bind {f : α → Except Error β} (hx : FailsWith p x) (hf : ∀ a, FailsWith p (f a)) :
    FailsWith p (x >>= f) := by
  cases x with
  | ok a => exact hf a
  | error err => exact of_error (hx err rfl)

theorem map (f : α → β) (hx : FailsWith p x) : FailsWith p (x.map f) := by
  cases x with
  | ok a => exact of_ok (f a)
  | error err => exact of_error (hx err rfl)

end FailsWith

namespace Transfer

variable {α β : Type} {p : Error → Prop} {memo : SubtypeMemo}

/-- If the conversion fails when these decisions have been made, its error is of a kind. -/
def FailsWithAt (p : Error → Prop) (x : Transfer α) (memo : SubtypeMemo) : Prop :=
  ∀ err, (x.run memo).1 = .error (.error err) → p err

namespace FailsWithAt

theorem of_pure (a : α) (memo : SubtypeMemo) : (pure a : Transfer α).FailsWithAt p memo := by
  intro err h
  cases h

theorem of_lift {x : Except Error α} (h : FailsWith p x) (memo : SubtypeMemo) :
    (lift x).FailsWithAt p memo := by
  intro err herr
  cases x with
  | ok a => cases herr
  | error err =>
    cases herr
    exact h err rfl

theorem of_throw {err : Error} (h : p err) (memo : SubtypeMemo) :
    (throw err : Transfer α).FailsWithAt p memo :=
  of_lift (.of_error h) memo

theorem bind {x : Transfer α} {f : α → Transfer β} (hx : x.FailsWithAt p memo)
    (hf : ∀ a after, x.run memo = (.ok a, after) → (f a).FailsWithAt p after) :
    (x >>= f).FailsWithAt p memo := by
  intro err h
  rw [run_bind] at h
  split at h
  · next a after hrun => exact hf a after hrun err h
  · next failure after hrun =>
    refine hx err ?_
    rw [hrun]
    cases h
    rfl

theorem map {x : Transfer α} (f : α → β) (hx : x.FailsWithAt p memo) :
    (f <$> x).FailsWithAt p memo :=
  hx.bind (fun _ _ _ => of_pure _ _)

/-- After a step that succeeds it is up to the rest. -/
theorem of_run {x : Transfer α} {f : α → Transfer β} {a : α} {after : SubtypeMemo}
    (hx : x.run memo = (.ok a, after)) (hf : (f a).FailsWithAt p after) :
    (x >>= f).FailsWithAt p memo := by
  intro err h
  rw [run_bind_of_ok hx] at h
  exact hf err h

end FailsWithAt

end Transfer

/-! ## Errors about the data -/

/-- Whether the error is about the data: a stream, its bytes, what they hold, or a number that is
not that of a format. -/
def Error.isOfData : Error → Bool
  | .io _ | .invalidData _ | .imageDecode _ | .imageEncode _ | .serialization _
  | .unknownFormat _ => true
  | .unsupportedConversion _ | .encodingUnsupported _ | .invalidFlavor _
  | .handoffDisconnected => false

/-- The result is no failure but for the data. -/
abbrev FailsByData {α : Type} (x : Except Error α) : Prop :=
  FailsWith (fun err => err.isOfData = true) x

theorem ByteStream.failsByData_requireAll (s : ByteStream) : FailsByData s.requireAll := by
  intro err h
  rw [requireAll] at h
  split at h <;> cases h
  rfl

theorem TransferValue.failsByData_readText (s : ByteStream) : FailsByData (readText s) := by
  rw [readText]
  split
  · next err hread => exact .of_error (s.failsByData_requireAll err hread)
  · split
    · exact .of_ok _
    · exact .of_error rfl

theorem FormatTable.failsByData_require (t : FormatTable) (id : FormatId) :
    FailsByData (t.require id) := by
  rw [require]
  split
  · exact .of_ok _
  · exact .of_error rfl

/-! ## Codecs -/

theorem ImageEncoding.failsByData_encode (encoding : ImageEncoding) (image : Image) :
    FailsByData (encoding.encode image) := by
  intro err h
  cases encoding with
  | dib | bmp | png | jpeg | gif =>
    simp only [encode, Bitmap.create, Bmp.encode, Png.encode, Jpeg.encode, Gif.encode] at h
    split at h <;> cases h
    rfl

theorem Bitmap.failsByData_layout (dib : Bytes) : FailsByData (layout dib) := by
  intro err h
  rw [layout] at h
  split at h <;> cases h
  rfl

theorem Bitmap.failsByData_parse (dib : Bytes) : FailsByData (parse dib) := by
  rw [parse]
  dsimp only
  split
  · exact .of_error rfl
  · split
    · exact .of_error rfl
    · split
      · next err hlayout => exact .of_error (failsByData_layout dib err hlayout)
      · split
        · exact .of_error rfl
        · split
          · exact .of_error rfl
          · exact .of_ok _

theorem ImageEncoding.failsByData_decode (encoding : ImageEncoding) (bytes : Bytes) :
    FailsByData (encoding.decode bytes) := by
  cases encoding with
  | dib => exact Bitmap.failsByData_parse bytes
  | bmp =>
    intro err h
    rw [decode, Bmp.decode] at h
    split at h <;> cases h
    rfl
  | png =>
    intro err h
    rw [decode, Png.decode] at h
    split at h <;> cases h
    rfl
  | jpeg | gif => exact .of_error rfl

theorem ImageCodec.failsByData_encode (image : Image) (native : NativeFormat) :
    FailsByData (standard.encode image native) := by
  simp only [standard]
  split
  · next encoding _ => exact encoding.failsByData_encode image
  · exact .of_error rfl

theorem ImageCodec.failsByData_decode (bytes : Bytes) (native : NativeFormat) :
    FailsByData (standard.decode bytes native) := by
  simp only [standard]
  split
  · next encoding _ => exact encoding.failsByData_decode bytes
  · exact .of_error rfl

theorem ObjectSerializer.failsByData_deserialize (bytes : Bytes) :
    FailsByData (json.deserialize bytes) := by
  simp only [json]
  split
  · exact .of_ok _
  · exact .of_error rfl

theorem DropFiles.failsByData_decode (bytes : Bytes) : FailsByData (codec.decode bytes) := by
  have hdecode : FailsByData (decode bytes) := by
    rw [decode]
    dsimp only
    split
    · exact .of_error rfl
    · split
      · exact .of_error rfl
      · exact .of_ok _
  exact hdecode.map some

theorem MarshalledObject.failsByData_unmarshal (bytes : Bytes) :
    FailsByData (unmarshal .json bytes) := by
  rw [unmarshal]
  split
  · next err hread => exact .of_error (ObjectSerializer.failsByData_deserialize bytes err hread)
  · split
    · exact .of_ok _
    · exact .of_error rfl

namespace Engine

/-- The codecs are the standard ones. -/
structure IsStandard (e : Engine) : Prop where
  fileCodec : e.fileCodec = DropFiles.codec
  imageCodec : e.imageCodec = ImageCodec.standard
  serializer : e.serializer = ObjectSerializer.json

variable {e : Engine}

theorem failsByData_pathsOf (items : List Json.Value) : FailsByData (pathsOf items) := by
  induction items with
  | nil => exact .of_ok []
  | cons item items ih =>
    cases item with
    | string s => exact ih.map _
    | _ => exact .of_error rfl

theorem failsByData_objectValue (rep : Representation) (v : Json.Value) :
    FailsByData (objectValue rep v) := by
  unfold objectValue
  split
  · exact .of_ok _
  · next items => exact (failsByData_pathsOf items).map _
  · exact .of_ok _
  · exact .of_error rfl

/-- What an object is not taken for is wrong with the object. -/
theorem failsByData_importObject (he : e.IsStandard) (bytes : Bytes) (rep : Representation) :
    FailsByData (e.importObject bytes rep) := by
  rw [importObject, he.serializer]
  split
  · next err hread => exact .of_error (ObjectSerializer.failsByData_deserialize bytes err hread)
  · exact failsByData_objectValue rep _

theorem failsByData_importImage (he : e.IsStandard) (bytes : Bytes) (native : NativeFormat) :
    FailsByData (e.importImage bytes native) := by
  rw [importImage, he.imageCodec]
  exact (ImageCodec.failsByData_decode bytes native).map TransferValue.image

end Engine

/-! ## Conversions -/

section

variable {p : Error → Prop}

/-- The representations of characters that nothing but text has; a string may be an object as well.
-/
def Representation.isChars : Representation → Bool
  | .reader | .charBuffer | .charArray => true
  | _ => false

theorem NativeText.failsWith_encode {props : TextProperties}
    (h : FailsWith p (Charset.require props.charset)) (text : List Char) :
    FailsWith p (encode props text) := by
  rw [encode]
  split
  · next err hcharset => exact .of_error (h err hcharset)
  · exact .of_ok _

theorem NativeText.failsWith_decode {name : String} (h : FailsWith p (Charset.require name))
    (props : TextProperties) (bytes : Bytes) : FailsWith p (decode props (some name) bytes) := by
  rw [decode, Option.getD_some]
  split
  · next err hcharset => exact .of_error (h err hcharset)
  · exact .of_ok _

namespace Engine

variable {e : Engine} {source : Source} {f : Flavor} {id : FormatId} {locale? : Option Source}
  {memo : SubtypeMemo} {v : TransferValue} {asString charsetText : Bool}

/-- What a conversion between a flavor and a format does with data and charsets fails with `p`
alone: the codecs are the standard ones, `p` allows errors about the data, and the charsets that are
asked for are known unless `p` allows that they are not. -/
structure FailsAtMost (e : Engine) (p : Error → Prop) (f : Flavor) (id : FormatId)
    (locale? : Option Source) : Prop where
  standard : e.IsStandard
  data : ∀ err, err.isOfData = true → p err
  /-- The charset of the format, to write in. -/
  format : FailsWith p (Charset.require (e.textProperties id).charset)
  /-- The charset of a flavor that is one of bytes. -/
  flavor : f.representation.isEncodedText = true → ∀ memo,
    FailsWith p (Charset.require ((e.classifier.textCharset f).run memo).1)
  /-- The charset of the format, to read in: asking for its name, and then the charset. -/
  asking : ∀ err, e.bestCharset id locale? = .error (.error err) → p err
  best : ∀ name, e.bestCharset id locale? = .ok name → FailsWith p (Charset.require name)

/-- The values that are written by themselves if the format is not one of files. -/
def isObject : TransferValue → Bool
  | .stream _ | .remote _ | .string _ | .fileList _ | .serializable _ => true
  | _ => false

theorem isEncodedText_of_expected (hrep : v.representation = expected f asString)
    (hencoded : v.representation.isEncodedText = true) : f.representation.isEncodedText = true := by
  rw [hrep] at hencoded
  cases asString with
  | false => exact hencoded
  | true => cases hencoded

theorem failsWith_exportablePaths
    (h : (f.isFileList = true ∧ ∃ paths, v = .fileList paths) ∨
      p (.unsupportedConversion .noConversion)) (e : Engine) (source : Source) :
    FailsWith p (e.exportablePaths source f v) := by
  unfold exportablePaths
  obtain ⟨hf, paths, rfl⟩ | hnone := h
  · dsimp only
    rw [if_pos hf]
    exact .of_ok _
  · split
    · split
      · exact .of_ok _
      · exact .of_error hnone
    · exact .of_error hnone

namespace FailsAtMost

theorem of_data {α : Type} {x : Except Error α} (h : e.FailsAtMost p f id locale?)
    (hx : FailsByData x) : FailsWith p x := hx.mono h.data

theorem failsWithAt_bind_flavorCharset {α : Type} (h : e.FailsAtMost p f id locale?)
    (hrep : f.representation.isEncodedText = true) {next : Charset → Transfer α}
    (hnext : ∀ charset after, (next charset).FailsWithAt p after) (memo : SubtypeMemo) :
    (do next (← Transfer.lift (Charset.require (← e.flavorCharset f)))).FailsWithAt p memo := by
  refine .of_run (Transfer.run_ask _ _) ?_
  exact .bind (.of_lift (h.flavor hrep memo) _) (fun charset after _ => hnext charset after)

theorem failsWithAt_bind_bestCharset {α : Type} (h : e.FailsAtMost p f id locale?)
    {next : String → Transfer α}
    (hnext : ∀ name, FailsWith p (Charset.require name) → (next name).FailsWithAt p memo) :
    (do next (← Transfer.ofExcept (e.bestCharset id locale?))).FailsWithAt p memo := by
  cases hbest : e.bestCharset id locale? with
  | ok name => exact .of_run (Transfer.run_ofExcept_ok name memo) (hnext name (h.best name hbest))
  | error failure =>
    intro err herr
    cases herr
    exact h.asking err hbest

/-! ### Export -/

theorem failsWith_encodeText (h : e.FailsAtMost p f id locale?) (text : List Char) :
    FailsWith p (e.encodeText id text) := NativeText.failsWith_encode h.format text

theorem failsWithAt_reencode (h : e.FailsAtMost p f id locale?)
    (hrep : f.representation.isEncodedText = true) (bytes : Bytes) (memo : SubtypeMemo) :
    (e.reencode f id bytes).FailsWithAt p memo := by
  rw [reencode]
  refine .of_run (e.run_isCharsetText_eq f id memo) ?_
  split
  · refine h.failsWithAt_bind_flavorCharset hrep (fun charset after => ?_) _
    exact .of_lift (h.failsWith_encodeText _) after
  · exact .of_pure _ _

/-- Characters are written to a format of text. -/
theorem failsWith_exportChars (h : e.FailsAtMost p f id locale?) {rep : Representation}
    (hchars : charsetText = true ∨ p (.unsupportedConversion (.nonText rep)))
    {text : Unit → Except Error (List Char)} (htext : FailsWith p (text ())) :
    FailsWith p (e.exportChars id charsetText rep text) := by
  rw [exportChars]
  split
  · split
    · next err hread => exact .of_error (htext err hread)
    · exact h.failsWith_encodeText _
  · next hnot => exact .of_error (hchars.resolve_left hnot)

theorem failsWith_exportImage (h : e.FailsAtMost p f id locale?)
    (himage : e.table.isImage id = true ∨ p (.unsupportedConversion .notAnImageFormat))
    (image : Image) : FailsWith p (e.exportImage id image) := by
  rw [exportImage, h.standard.imageCodec]
  split
  · split
    · next err hnative => exact .of_error (h.data err (e.table.failsByData_require id err hnative))
    · exact h.of_data (ImageCodec.failsByData_encode image _)
  · next hnot => exact .of_error (himage.resolve_left hnot)

theorem failsWith_exportFiles (h : e.FailsAtMost p f id locale?)
    (hpaths : FailsWith p (e.exportablePaths source f v)) :
    FailsWith p (e.exportFiles source f v) := by
  rw [exportFiles, h.standard.fileCodec]
  split
  · next err hread => exact .of_error (hpaths err hread)
  · exact .of_ok _

/-- An object is written unless it is up to a format of files. -/
theorem failsWithAt_exportObject (h : e.FailsAtMost p f id locale?)
    (hrep : v.representation = expected f asString) (hv : isObject v = true)
    (hfiles : e.table.isFileList id = true → FailsWith p (e.exportablePaths source f v))
    (huris : e.table.isUriList id = true → FailsWith p (e.exportUris source f id v))
    (memo : SubtypeMemo) : (e.exportObject source f id v).FailsWithAt p memo := by
  have hobject (value : Json.Value) : FailsWith p (e.serializer.serialize value) := by
    rw [h.standard.serializer]
    exact .of_ok _
  unfold exportObject
  split
  · next hid => exact .of_lift (h.failsWith_exportFiles (hfiles hid)) memo
  · split
    · next hid => exact .of_lift (huris hid) memo
    · cases v with
      | stream s =>
        have hencoded := isEncodedText_of_expected hrep rfl
        refine .bind (.of_lift (h.of_data s.failsByData_requireAll) memo) (fun bytes after _ => ?_)
        exact h.failsWithAt_reencode hencoded bytes after
      | remote object => exact .of_lift (hobject _) memo
      | string text => exact .of_lift (hobject _) memo
      | fileList paths => exact .of_lift (hobject _) memo
      | serializable object => exact .of_lift (hobject _) memo
      | _ => cases hv

/-- **A value of the expected representation is written**, if it is characters for a format of text,
an image for one of images, or an object that can be written. -/
theorem failsWithAt_exportValue (h : e.FailsAtMost p f id locale?)
    (hrep : v.representation = expected f asString)
    (hchars : v.representation.isChars = true →
      e.takesCharset f id memo = true ∨ ∀ rep, p (.unsupportedConversion (.nonText rep)))
    (himage : v.representation = .image →
      e.table.isImage id = true ∨ p (.unsupportedConversion .notAnImageFormat))
    (hobject : isObject v = true → v.isDirect (e.takesCharset f id memo) asString = false →
      ∀ after, (e.exportObject source f id v).FailsWithAt p after) :
    (e.exportValue source f id asString v).FailsWithAt p memo := by
  rw [exportValue]
  refine .of_run (e.run_isCharsetText_eq f id memo) ?_
  have htext (rep : Representation) (hv : v.representation.isChars = true) :
      e.takesCharset f id memo = true ∨ p (.unsupportedConversion (.nonText rep)) :=
    (hchars hv).imp_right (fun hall => hall rep)
  have hencoded := isEncodedText_of_expected hrep
  cases v with
  | string text =>
    dsimp only
    split
    · exact .of_lift (h.failsWith_encodeText _) _
    · next hnot => exact hobject rfl (by simpa [TransferValue.isDirect] using hnot) _
  | reader s =>
    refine .of_lift (h.failsWith_exportChars (htext .reader rfl) ?_) _
    exact h.of_data (TransferValue.failsByData_readText s)
  | charBuffer text =>
    exact .of_lift (h.failsWith_exportChars (htext .charBuffer rfl) (.of_ok text)) _
  | charArray text =>
    exact .of_lift (h.failsWith_exportChars (htext .charArray rfl) (.of_ok text)) _
  | byteBuffer bytes => exact h.failsWithAt_reencode (hencoded rfl) bytes _
  | byteArray bytes => exact h.failsWithAt_reencode (hencoded rfl) bytes _
  | image image => exact .of_lift (h.failsWith_exportImage (himage rfl) image) _
  | fileList _ | stream _ | serializable _ | remote _ => exact hobject rfl rfl _

/-! ### Import -/

theorem failsWithAt_decodeText (h : e.FailsAtMost p f id locale?) (bytes : Bytes)
    (memo : SubtypeMemo) : (e.decodeText bytes id locale?).FailsWithAt p memo := by
  rw [decodeText]
  refine h.failsWithAt_bind_bestCharset (fun name hname => ?_)
  exact .of_lift (NativeText.failsWith_decode hname _ bytes) memo

theorem failsWithAt_reencoded (h : e.FailsAtMost p f id locale?) (s : ByteStream)
    (target : Charset) (memo : SubtypeMemo) :
    (e.reencoded s id target locale?).FailsWithAt p memo := by
  rw [reencoded]
  refine h.failsWithAt_bind_bestCharset (fun name hname => ?_)
  exact .bind (.of_lift hname memo) (fun _ _ _ => .of_pure _ _)

theorem failsWithAt_flavorBytes (h : e.FailsAtMost p f id locale?)
    (hrep : f.representation.isEncodedText = true) (bytes : Bytes) (memo : SubtypeMemo) :
    (e.flavorBytes bytes f id locale?).FailsWithAt p memo := by
  rw [flavorBytes]
  refine .of_run (e.run_isCharsetText_eq f id memo) ?_
  split
  · refine .bind (h.failsWithAt_decodeText bytes _) (fun text after _ => ?_)
    exact h.failsWithAt_bind_flavorCharset hrep (fun _ _ => .of_pure _ _) after
  · exact .of_pure _ _

theorem failsWithAt_importByteStream (h : e.FailsAtMost p f id locale?)
    (hrep : f.representation = .stream) (s : ByteStream) (charsetText : Bool)
    (memo : SubtypeMemo) :
    (e.importByteStream s f id charsetText locale?).FailsWithAt p memo := by
  rw [importByteStream]
  split
  · refine h.failsWithAt_bind_flavorCharset (by rw [hrep]; rfl) (fun target after => ?_) memo
    exact .bind (h.failsWithAt_reencoded s target after) (fun _ _ _ => .of_pure _ _)
  · exact .of_pure _ _

theorem failsWithAt_importReader (h : e.FailsAtMost p f id locale?)
    (hchars : charsetText = true ∨ p (.unsupportedConversion (.nonText .reader)))
    (s : ByteStream) (memo : SubtypeMemo) :
    (e.importReader s id charsetText locale?).FailsWithAt p memo := by
  rw [importReader]
  split
  · exact .bind (h.failsWithAt_reencoded s .utf8 memo) (fun _ _ _ => .of_pure _ _)
  · next hnot => exact .of_throw (hchars.resolve_left hnot) memo

theorem failsWith_imageFormat (h : e.FailsAtMost p f id locale?)
    (himage : e.table.isImage id = true ∨ p (.unsupportedConversion .noConversion)) :
    FailsWith p (e.imageFormat id) := by
  rw [imageFormat]
  split
  · exact h.of_data (e.table.failsByData_require id)
  · next hnot => exact .of_error (himage.resolve_left hnot)

theorem failsWith_importFiles (h : e.FailsAtMost p f id locale?)
    (hfiles : f.isFileList = true ∨ p (.unsupportedConversion .noConversion)) (bytes : Bytes) :
    FailsWith p (e.importFiles bytes f) := by
  rw [importFiles, h.standard.fileCodec]
  split
  · split
    · next err hread => exact .of_error (h.data err (DropFiles.failsByData_decode bytes err hread))
    · exact .of_ok _
    · exact .of_ok _
  · next hnot => exact .of_error (hfiles.resolve_left hnot)

/-- **Bytes are made into a value**, if they are those of a text where it is one of characters, and
of an image where it is one. -/
theorem failsWithAt_importWhole (h : e.FailsAtMost p f id locale?)
    (hchars : f.representation.isChars = true →
      charsetText = true ∨ ∀ rep, p (.unsupportedConversion (.nonText rep)))
    (himage : f.representation = .image →
      e.table.isImage id = true ∨ p (.unsupportedConversion .noConversion))
    (bytes : Bytes) (memo : SubtypeMemo) :
    (e.importWhole bytes f id charsetText locale?).FailsWithAt p memo := by
  have htext (make : List Char → TransferValue) :
      (do return make (← e.decodeText bytes id locale?) : Transfer TransferValue).FailsWithAt p
        memo :=
    .bind (h.failsWithAt_decodeText bytes memo) (fun _ _ _ => .of_pure _ _)
  have hmade (make : List Char → TransferValue) (rep : Representation)
      (hmade : charsetText = true ∨ ∀ rep, p (.unsupportedConversion (.nonText rep))) :
      (if charsetText then do return make (← e.decodeText bytes id locale?)
        else Transfer.throw (.unsupportedConversion (.nonText rep)) :
          Transfer TransferValue).FailsWithAt p memo := by
    split
    · exact htext make
    · next hnot => exact .of_throw (hmade.resolve_left hnot rep) memo
  have hbytes (make : Bytes → TransferValue) (hencoded : f.representation.isEncodedText = true) :
      (do return make (← e.flavorBytes bytes f id locale?) : Transfer TransferValue).FailsWithAt p
        memo :=
    .bind (h.failsWithAt_flavorBytes hencoded bytes memo) (fun _ _ _ => .of_pure _ _)
  have hobject (rep : Representation) :
      (Transfer.lift (e.importObject bytes rep)).FailsWithAt p memo :=
    .of_lift (h.of_data (failsByData_importObject h.standard bytes rep)) memo
  unfold importWhole
  cases hrep : f.representation with
  | string =>
    dsimp only
    split
    · exact htext .string
    · exact hobject .string
  | charBuffer => exact hmade .charBuffer .charBuffer (hchars (by rw [hrep]; rfl))
  | charArray => exact hmade .charArray .charArray (hchars (by rw [hrep]; rfl))
  | byteBuffer => exact hbytes .byteBuffer (by rw [hrep]; rfl)
  | byteArray => exact hbytes .byteArray (by rw [hrep]; rfl)
  | remote =>
    refine .of_lift (FailsWith.map _ ?_) memo
    rw [h.standard.serializer]
    exact h.of_data (MarshalledObject.failsByData_unmarshal bytes)
  | image =>
    refine .bind (.of_lift (h.failsWith_imageFormat (himage hrep)) memo) (fun native after _ => ?_)
    exact .of_lift (h.of_data (failsByData_importImage h.standard bytes native)) after
  | fileList => exact hobject .fileList
  | serializable => exact hobject .serializable
  | reader =>
    have hreader := (hchars (by rw [hrep]; rfl)).imp_right (fun hall => hall .reader)
    exact h.failsWithAt_importReader hreader _ memo
  | stream => exact h.failsWithAt_importByteStream hrep _ charsetText memo

end FailsAtMost

end Engine

end

end Clipboard
