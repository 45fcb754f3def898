import Clipboard.Proofs.NativeText.Pieces
import Clipboard.Proofs.Transfer.Import

/-!
# A stream and its bytes

What is imported from a stream is what is imported from the bytes that it delivers, however it
delivers them: both fail with the same error, or give values that hold the same once streams are read
to their end (`importStream_sameOutcome`).

It is not so for the platform's list of files. Asked for a flavor, `importBytes` looks at the kind of
the format first and has the codec of such lists read the bytes; `importStream` does not, and reads
them as it reads any bytes (`importStream_misses_files`). Where it goes on to `importBytes`, or fails
as `importBytes` does, there is still no difference.
-/

namespace Clipboard

namespace TransferValue

/-- Values that hold the same once streams are read to their end. -/
inductive SameContent : TransferValue → TransferValue → Prop where
  | refl (v : TransferValue) : SameContent v v
  | reader {s t : ByteStream} : s.readAll = t.readAll → SameContent (.reader s) (.reader t)
  | stream {s t : ByteStream} : s.readAll = t.readAll → SameContent (.stream s) (.stream t)

variable {v w : TransferValue}

theorem requireAll_eq_of_readAll_eq {s t : ByteStream} (h : s.readAll = t.readAll) :
    s.requireAll = t.requireAll := by
  rw [ByteStream.requireAll, ByteStream.requireAll, h]

/-- Such values are in the same representation, and nothing that is read off them differs. -/
theorem SameContent.indistinct (h : v.SameContent w) : v.representation = w.representation ∧
    v.requireText = w.requireText ∧ v.requireBytes = w.requireBytes := by
  cases h with
  | refl => exact ⟨rfl, rfl, rfl⟩
  | reader h =>
    refine ⟨rfl, ?_, rfl⟩
    simp only [requireText, readText, requireAll_eq_of_readAll_eq h]
  | stream h => exact ⟨rfl, rfl, requireAll_eq_of_readAll_eq h⟩

end TransferValue

namespace Engine

/-- The same error, no data twice, or values that hold the same. -/
inductive SameOutcome :
    Except Failure (Option TransferValue) → Except Failure (Option TransferValue) → Prop where
  | value {v w : TransferValue} : v.SameContent w → SameOutcome (.ok (some v)) (.ok (some w))
  | nothing : SameOutcome (.ok none) (.ok none)
  | error (failure : Failure) : SameOutcome (.error failure) (.error failure)

theorem SameOutcome.of_eq {x y : Except Failure (Option TransferValue)} (h : x = y) :
    SameOutcome x y := by
  subst h
  match x with
  | .ok (some v) => exact .value (.refl v)
  | .ok none => exact .nothing
  | .error e => exact .error e

variable {e : Engine} {id : FormatId} {f : Flavor} {locale? : Option Source} {s : ByteStream}

/-! ## What is asked for -/

theorem requireAll_of_ending (hend : s.ending = .endOfData) : s.requireAll = .ok s.toBytes := by
  simp [ByteStream.requireAll, ByteStream.readAll, hend]

theorem readAll_ofBytes (hend : s.ending = .endOfData) :
    s.readAll = (ByteStream.ofBytes s.toBytes).readAll := by
  simp [ByteStream.readAll, hend]

/-- Whether the flavor is charset text of the format is decided once and for all. -/
theorem exists_isCharsetText (e : Engine) (f : Flavor) (id : FormatId) (memo : SubtypeMemo) :
    ∃ charsetText memo', (e.isCharsetText f id).run memo = (.ok charsetText, memo') ∧
      (e.isCharsetText f id).run memo' = (.ok charsetText, memo') := by
  have hagain := (TextClassifier.settling_isCharsetText f).again
    (SubtypeMemo.Extends.refl ((TextClassifier.isCharsetText f).run memo).2)
  refine ⟨_, _, rfl, ?_⟩
  simp only [isCharsetText, Transfer.run_bind, Transfer.run_ask, Transfer.run_pure, hagain]

theorem isImage_eq_false_of_isFileList (h : e.table.isFileList id = true) :
    e.table.isImage id = false := by
  simp only [FormatTable.isImage, FormatTable.isFileList, decide_eq_true_eq] at h ⊢
  simp [h]

/-! ## Streams -/

theorem reencoded_eq (hend : s.ending = .endOfData) (target : Charset) :
    e.reencoded s id target locale? = e.reencoded (.ofBytes s.toBytes) id target locale? := by
  simp only [reencoded, NativeText.Reencoder.toStream_new _ _ _ hend]

/-- Text is read off both in the same way, and anything else is handed on. -/
theorem importByteStream_sameOutcome (hend : s.ending = .endOfData) (charsetText : Bool)
    (memo : SubtypeMemo) :
    SameOutcome ((some <$> e.importByteStream s f id charsetText locale?).run memo).1
      ((some <$> e.importByteStream (.ofBytes s.toBytes) f id charsetText locale?).run memo).1 := by
  cases charsetText with
  | true =>
    refine SameOutcome.of_eq ?_
    simp only [importByteStream, if_true, reencoded_eq hend]
  | false => exact .value (.stream (readAll_ofBytes hend))

theorem importReader_sameOutcome (hend : s.ending = .endOfData) (charsetText : Bool)
    (memo : SubtypeMemo) :
    SameOutcome ((some <$> e.importReader s id charsetText locale?).run memo).1
      ((some <$> e.importReader (.ofBytes s.toBytes) id charsetText locale?).run memo).1 := by
  cases charsetText with
  | true =>
    refine SameOutcome.of_eq ?_
    simp only [importReader, if_true, reencoded_eq hend]
  | false => exact .error _

/-! ## Whole formats -/

/-- Of a format of another kind than the list of files. -/
theorem importStream_sameOutcome_of_plain (hend : s.ending = .endOfData)
    (hfiles : e.table.isFileList id = false) (memo : SubtypeMemo) :
    SameOutcome ((e.importStream s f id locale?).run memo).1
      ((e.importBytes s.toBytes f id locale?).run memo).1 := by
  have hbytes := requireAll_of_ending hend
  by_cases huris : (e.table.isUriList id && f.isFileList) = true
  · refine SameOutcome.of_eq ?_
    rw [importStream, importBytes, if_pos huris, if_neg (by simp [hfiles]), if_pos huris, hbytes,
      Transfer.run_bind_of_ok (Transfer.run_lift_ok _ _)]
  · obtain ⟨charsetText, memo', hask, hagain⟩ := exists_isCharsetText e f id memo
    have himport {before : SubtypeMemo}
        (h : (e.isCharsetText f id).run before = (.ok charsetText, memo')) :
        (e.importBytes s.toBytes f id locale?).run before
          = (some <$> e.importWhole s.toBytes f id charsetText locale?).run memo' := by
      rw [importBytes, if_neg (by simp [hfiles]), if_neg huris, Transfer.run_bind_of_ok h]
      rfl
    have hread (g : Bytes → Transfer (Option TransferValue)) :
        (Transfer.lift s.requireAll >>= g).run memo' = (g s.toBytes).run memo' := by
      rw [hbytes, Transfer.run_bind_of_ok (Transfer.run_lift_ok _ _)]
    rw [importStream, if_neg huris, Transfer.run_bind_of_ok hask, himport hask]
    cases hrep : f.representation with
    | stream =>
      simp only [importWhole, hrep]
      exact importByteStream_sameOutcome hend charsetText memo'
    | reader =>
      simp only [importWhole, hrep]
      exact importReader_sameOutcome hend charsetText memo'
    | image =>
      refine SameOutcome.of_eq ?_
      simp only [importWhole, hrep, hbytes]
      cases e.imageFormat id <;> rfl
    | charArray | charBuffer | byteBuffer =>
      refine SameOutcome.of_eq ?_
      rw [hread, himport hagain]
    | string | byteArray | fileList | serializable | remote =>
      refine SameOutcome.of_eq ?_
      rw [hread]
      rfl

/-- The representations that a list of files is refused in, be it asked for from a stream or from
bytes. -/
def refusesFiles : Representation → Bool
  | .charArray | .charBuffer | .byteBuffer | .image => true
  | _ => false

/-- Of a list of files. -/
theorem importStream_sameOutcome_of_files (hend : s.ending = .endOfData)
    (hfiles : e.table.isFileList id = true) (hrep : refusesFiles f.representation = true)
    (memo : SubtypeMemo) :
    SameOutcome ((e.importStream s f id locale?).run memo).1
      ((e.importBytes s.toBytes f id locale?).run memo).1 := by
  have hflavor : f.isFileList = false := by
    cases h : f.representation <;> simp_all [Flavor.isFileList, refusesFiles]
  have himport (memo : SubtypeMemo) : (e.importBytes s.toBytes f id locale?).run memo
      = (.error (.error (.unsupportedConversion .noConversion)), memo) := by
    rw [importBytes, if_pos hfiles]
    simp [importFiles, hflavor]
  have himage : e.imageFormat id = .error (.unsupportedConversion .noConversion) :=
    if_neg (by simp [isImage_eq_false_of_isFileList hfiles])
  obtain ⟨charsetText, memo', hask, -⟩ := exists_isCharsetText e f id memo
  refine SameOutcome.of_eq ?_
  rw [himport, importStream, if_neg (by simp [hflavor]), Transfer.run_bind_of_ok hask]
  cases h : f.representation with
  | charArray | charBuffer | byteBuffer =>
    rw [requireAll_of_ending hend, Transfer.run_bind_of_ok (Transfer.run_lift_ok _ _), himport]
  | image => rw [himage]; rfl
  | string | reader | byteArray | stream | fileList | serializable | remote =>
    rw [h] at hrep
    cases hrep

/-- **A stream is imported as its bytes are.** -/
theorem importStream_sameOutcome (hend : s.ending = .endOfData)
    (hkind : e.table.isFileList id = true → refusesFiles f.representation = true)
    (memo : SubtypeMemo) :
    SameOutcome ((e.importStream s f id locale?).run memo).1
      ((e.importBytes s.toBytes f id locale?).run memo).1 := by
  by_cases hfiles : e.table.isFileList id = true
  · exact importStream_sameOutcome_of_files hend hfiles (hkind hfiles) memo
  · exact importStream_sameOutcome_of_plain hend (by simpa using hfiles) memo

/-- Two lines as characters, a line end being cut in two between deliveries. -/
theorem importStream_sameOutcome_cut :
    let props : TextProperties := { charset := "UTF-8", eoln := some "\r\n", terminators := 1 }
    let native : NativeFormat :=
      { id := .text, name := "TEXT", kind := .plain, localeDependent := false, text := some props }
    let e := ofFormat native
    let f := Flavor.ofParts "text" "plain" [] .reader
    let s : ByteStream :=
      { deliveries := [.bytes 0x61 [0x0D], .interrupted, .bytes 0x0A [0x62], .bytes 0x00 [0x63]]
        ending := .endOfData }
    s.ending = .endOfData ∧
      (e.table.isFileList native.id = true → refusesFiles f.representation = true) ∧
      ∃ v, ((e.importStream s f native.id none).run .empty).1 = .ok (some v) ∧
        v.representation = .reader ∧ v.requireText = .ok ['a', '\n', 'b'] := by
  intro props native e f s
  have hreads : e.ReadsIn native.id none props .utf8 := readsIn_ofFormat rfl (by decide +kernel)
  have hfiles : e.table.isFileList native.id = false := by decide +kernel
  have hkind : e.table.isFileList native.id = true → refusesFiles f.representation = true := by
    simp [hfiles]
  have hflavor : e.TextFlavor .empty f .utf8 := ⟨by decide +kernel, fun hbytes => by cases hbytes⟩
  have htext : NativeText.importedText f.representation .utf8 props s.toBytes = ['a', '\n', 'b'] := by
    decide +kernel
  obtain ⟨w, hrun, hrep, hw⟩ :=
    run_importBytes hreads hfiles (fun _ => Or.inr (by simp [props])) hflavor s.toBytes
  rw [TransferValue.IsText, hrep, if_neg (by decide), htext] at hw
  have hsame : SameOutcome ((e.importStream s f native.id none).run .empty).1
      ((e.importBytes s.toBytes f native.id none).run .empty).1 :=
    importStream_sameOutcome rfl hkind .empty
  rw [hrun] at hsame
  refine ⟨rfl, hkind, ?_⟩
  cases hstream : ((e.importStream s f native.id none).run .empty).1 with
  | error failure => rw [hstream] at hsame; cases hsame
  | ok v =>
    rw [hstream] at hsame
    cases hsame with
    | value hcontent =>
      obtain ⟨hform, hchars, -⟩ := hcontent.indistinct
      exact ⟨_, rfl, hform.trans hrep, hchars.trans hw⟩

/-- The platform's list of one file, as a stream and as bytes. -/
theorem importStream_misses_files :
    let native : NativeFormat :=
      { id := .dropFiles, name := "FILES", kind := .fileList, localeDependent := false, text := none }
    let e := ofFormat native
    let bytes := DropFiles.encode ["a"]
    ((e.importBytes bytes Flavor.fileList native.id none).run .empty).1
        = .ok (some (.fileList ["a"])) ∧
      ∃ fault, ((e.importStream (.ofBytes bytes) Flavor.fileList native.id none).run .empty).1
        = .error (.error (.serialization fault)) := by
  intro native e bytes
  have hnames : DropFiles.namesOf true (bytes.drop DropFiles.headerLength) = ["a"] := by
    decide +kernel
  have hdecode : DropFiles.decode bytes = .ok ["a"] := by
    rw [DropFiles.decode, if_neg (by decide +kernel)]
    exact (if_neg (by decide +kernel)).trans (congrArg Except.ok hnames)
  have hfiles : e.table.isFileList native.id = true := by decide +kernel
  have huris : ¬(e.table.isUriList native.id && Flavor.fileList.isFileList) = true := by
    decide +kernel
  have hflavor : Flavor.fileList.isFileList = true := by decide +kernel
  constructor
  · have hcodec : e.fileCodec.decode bytes = .ok (some ["a"]) := congrArg (Except.map some) hdecode
    rw [importBytes, if_pos hfiles, importFiles, if_pos hflavor, hcodec]
    rfl
  · have hjson : (Json.ofBytes bytes).toOption.isNone = true := by decide +kernel
    obtain ⟨fault, hfault⟩ : ∃ fault, Json.ofBytes bytes = .error fault := by
      cases h : Json.ofBytes bytes with
      | error fault => exact ⟨fault, rfl⟩
      | ok v => simp [h, Except.toOption] at hjson
    have hobject : e.importObject bytes .fileList = .error (.serialization (.notJson fault)) := by
      have hserializer : e.serializer.deserialize bytes = .error (.serialization (.notJson fault)) := by
        show ObjectSerializer.json.deserialize bytes = _
        simp only [ObjectSerializer.json, hfault]
      rw [importObject, hserializer]
    have hrep : Flavor.fileList.representation = .fileList := rfl
    obtain ⟨charsetText, memo, hask, -⟩ := exists_isCharsetText e Flavor.fileList native.id .empty
    refine ⟨.notJson fault, ?_⟩
    rw [importStream, if_neg huris, Transfer.run_bind_of_ok hask]
    simp only [hrep, ByteStream.requireAll_ofBytes]
    rw [Transfer.run_bind_of_ok (Transfer.run_lift_ok _ _)]
    simp only [importWhole, hrep, hobject]
    rfl

end Engine

end Clipboard
