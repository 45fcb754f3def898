import Clipboard.Proofs.TextClassifier.Calls
import Clipboard.Proofs.Transfer.ImportStream
import Clipboard.Proofs.Transfer.Supported

/-!
# Charsets that are not known

An engine knows the charsets that it was made for (`Engine.KnowsCharsets`): the default one and
those of the text formats. The charset of a flavor is only asked for if it is known as well. So no
conversion lacks a charset but that of file URIs, which the name of the format gives and nobody has
looked at (`FormatTable.MissesCharset`). With such a format a conversion fails whenever a value
comes to be written as lines of URIs (`Engine.lacksCharset_exportFrom_iff`), and whenever files are
to be read (`Engine.lacksCharset_importBytes_iff`, `Engine.lacksCharset_importStream_iff`).
-/

namespace Clipboard

/-! ## Known charsets -/

/-- Whether the error is that a charset is not known. -/
def Error.isOfCharset : Error → Bool
  | .encodingUnsupported _ => true
  | _ => false

/-- The result is not that a charset is not known. -/
abbrev CharsetKnown {α : Type} (x : Except Error α) : Prop :=
  FailsWith (fun err => err.isOfCharset = false) x

/-- The conversion, when these decisions have been made, does not fail for a charset. -/
abbrev Transfer.CharsetKnownAt {α : Type} (x : Transfer α) (memo : SubtypeMemo) : Prop :=
  x.FailsWithAt (fun err => err.isOfCharset = false) memo

theorem Error.isOfCharset_of_isOfData {err : Error} (h : err.isOfData = true) :
    err.isOfCharset = false := by
  cases err <;> first | rfl | cases h

/-- The conversion fails because the charset of this name is not known. -/
def Transfer.LacksCharset {α : Type} (x : Transfer α) (memo : SubtypeMemo) (name : String) : Prop :=
  (x.run memo).1 = .error (.error (.encodingUnsupported name))

theorem Transfer.charsetKnownAt_iff {α : Type} {x : Transfer α} {memo : SubtypeMemo} :
    x.CharsetKnownAt memo ↔ ∀ name, ¬x.LacksCharset memo name := by
  constructor
  · intro h name hlacks
    cases h _ hlacks
  · intro h err herr
    cases err with
    | encodingUnsupported name => exact absurd herr (h name)
    | _ => rfl

theorem Transfer.lacksCharset_lift_iff {α : Type} {x : Except Error α} {memo : SubtypeMemo}
    {name : String} : (lift x).LacksCharset memo name ↔ x = .error (.encodingUnsupported name) := by
  cases x with
  | ok a => exact iff_of_false nofun nofun
  | error err => simp [LacksCharset]

theorem Transfer.lacksCharset_map_iff {α β : Type} {x : Transfer α} {f : α → β} {memo : SubtypeMemo}
    {name : String} : (f <$> x).LacksCharset memo name ↔ x.LacksCharset memo name := by
  rw [LacksCharset, LacksCharset, run_map]
  split
  · next hrun => rw [hrun]; exact iff_of_false nofun nofun
  · next hrun => rw [hrun]; simp

theorem Charset.exists_require {name : String} (h : isSupported name = true) :
    ∃ charset, require name = .ok charset := by
  obtain ⟨charset, hname⟩ := Option.isSome_iff_exists.mp h
  exact ⟨charset, by rw [require, hname]⟩

theorem Charset.require_eq_error {name : String} (h : isSupported name = false) :
    require name = .error (.encodingUnsupported name) := by
  have hname : ofName? name = none := by
    rw [← Option.not_isSome_iff_eq_none]
    simpa [isSupported] using h
  rw [require, hname]

theorem charsetKnown_require {name : String} (h : Charset.isSupported name = true) :
    CharsetKnown (Charset.require name) := by
  obtain ⟨charset, hcharset⟩ := Charset.exists_require h
  rw [hcharset]
  exact .of_ok charset

/-! ## The charset of a flavor -/

namespace TextClassifier

variable {f : Flavor} {memo : SubtypeMemo}

/-- Charset text that is held as bytes names a charset that is known, if it names one. -/
theorem isSupported_of_isCharsetText (hrep : f.representation.isEncodedText = true)
    (h : ((isCharsetText f).run memo).1 = true) {charset : String}
    (hname : f.charset? = some charset) :
    Charset.isSupported charset = true := by
  have hreadable : isReadable f = true := by
    by_cases hprimary : f.mime.primary = "text"
    · rw [run_isCharsetText_of_text hprimary] at h
      exact (Bool.and_eq_true_iff.mp h).2
    · -- any other flavor that is charset text is the string flavor, which is not held as bytes
      rw [run_isCharsetText_of_not_text hprimary] at h
      rw [of_decide_eq_true h] at hrep
      cases hrep
  have hdecoded : f.representation.isDecodedText = false := by
    cases hdecoded : f.representation.isDecodedText with
    | false => rfl
    | true =>
      rw [Representation.not_isEncodedText_of_isDecodedText hdecoded] at hrep
      cases hrep
  rw [isReadable, hdecoded, hname, Bool.false_or] at hreadable
  exact (Bool.and_eq_true_iff.mp hreadable).2

theorem isSupported_textCharset {c : TextClassifier}
    (hdefault : Charset.isSupported c.defaultCharset = true)
    (hrep : f.representation.isEncodedText = true) (memo : SubtypeMemo) :
    Charset.isSupported ((c.textCharset f).run memo).1 = true := by
  have hrun : ((c.textCharset f).run memo).1
      = (if ((isCharsetText f).run memo).1 then some (f.charset?.getD c.defaultCharset)
          else none).getD c.defaultCharset := by
    rw [textCharset, textCharset?, Memoized.run_bind, Memoized.run_bind, Memoized.run_ite]
    split <;> rfl
  rw [hrun]
  split
  · next htext =>
    cases hname : f.charset? with
    | none => exact hdefault
    | some charset => exact isSupported_of_isCharsetText hrep htext hname
  · exact hdefault

end TextClassifier

/-! ## The charset of file URIs -/

/-- Where the charset of file URIs is not known, the name of the format gives one. -/
theorem NativeFormat.nameCharset?_of_not_isSupported {native : NativeFormat}
    (h : Charset.isSupported native.uriCharset = false) :
    native.nameCharset? = some native.uriCharset := by
  rw [uriCharset] at h ⊢
  cases hname : native.nameCharset? with
  | some charset => rfl
  | none =>
    rw [hname] at h
    exact absurd h (by decide +kernel)

namespace FormatTable

variable {t : FormatTable} {id : FormatId} {name : String}

/-- The format is one of file URIs, and its name gives a charset that is not known. -/
def MissesCharset (t : FormatTable) (id : FormatId) (name : String) : Prop :=
  ∃ native, t.native? id = some native ∧ native.kind = .uriList ∧
    native.nameCharset? = some name ∧ Charset.isSupported name = false

theorem MissesCharset.kindOf_eq (h : t.MissesCharset id name) : t.kindOf id = .uriList := by
  obtain ⟨native, hnative, hkind, -⟩ := h
  rw [kindOf, kind?, hnative, Option.map_some, hkind]
  rfl

theorem not_isFileList_of_kindOf (h : t.kindOf id = .uriList) : ¬t.isFileList id = true := by
  rw [isFileList_iff, h]
  exact nofun

/-- What is done with file URIs fails for a charset exactly if that of the format is missed. -/
theorem bind_require_eq_encodingUnsupported_iff {α : Type} {next : Charset → Except Error α}
    (hnext : ∀ charset, CharsetKnown (next charset)) (hid : t.kindOf id = .uriList) :
    (t.require id >>= fun native => Charset.require native.uriCharset >>= next)
        = .error (.encodingUnsupported name) ↔
      t.MissesCharset id name := by
  obtain ⟨native, hnative, hkind⟩ :
      ∃ native, t.native? id = some native ∧ native.kind = .uriList := by
    rw [kindOf, kind?] at hid
    cases hnative : t.native? id with
    | none =>
      rw [hnative] at hid
      cases hid
    | some native =>
      rw [hnative] at hid
      exact ⟨native, rfl, hid⟩
  have hrequire : t.require id = .ok native := by rw [require, hnative]
  rw [hrequire, ok_bind]
  cases hcharset : Charset.isSupported native.uriCharset with
  | true =>
    obtain ⟨charset, hfound⟩ := Charset.exists_require hcharset
    rw [hfound, ok_bind]
    constructor
    · intro hnot
      cases hnext charset _ hnot
    · rintro ⟨other, hother, -, hname, hnot⟩
      cases hnative.symm.trans hother
      rw [NativeFormat.uriCharset, hname, Option.getD_some, hnot] at hcharset
      cases hcharset
  | false =>
    have hname := NativeFormat.nameCharset?_of_not_isSupported hcharset
    rw [Charset.require_eq_error hcharset, error_bind]
    constructor
    · intro heq
      cases heq
      exact ⟨native, hnative, hkind, hname, hcharset⟩
    · rintro ⟨other, hother, -, hgiven, -⟩
      cases hnative.symm.trans hother
      cases hname.symm.trans hgiven
      rfl

end FormatTable

namespace Engine

variable {e : Engine} {source : Source} {f : Flavor} {id : FormatId} {memo : SubtypeMemo}
  {v : TransferValue} {asString : Bool} {name : String}

/-- The charsets that the engine was made for are known. -/
structure KnowsCharsets (e : Engine) : Prop where
  default : Charset.isSupported e.defaultCharset = true
  formats : ∀ id props, e.table.textProperties? id = some props →
    Charset.isSupported props.charset = true

namespace KnowsCharsets

theorem isSupported_textProperties (h : e.KnowsCharsets) (id : FormatId) :
    Charset.isSupported (e.textProperties id).charset = true := by
  rw [textProperties]
  cases hprops : e.table.textProperties? id with
  | none => exact h.default
  | some props => exact h.formats id props hprops

/-- **Only formats of file URIs can lack a charset**, as long as no source names one. -/
theorem failsAtMost (h : e.KnowsCharsets) (he : e.IsStandard) (f : Flavor) (id : FormatId) :
    e.FailsAtMost (fun err => err.isOfCharset = false) f id none where
  standard := he
  data _ := Error.isOfCharset_of_isOfData
  format := charsetKnown_require (h.isSupported_textProperties id)
  flavor hrep memo :=
    charsetKnown_require
      (TextClassifier.isSupported_textCharset (c := e.classifier) h.default hrep memo)
  asking err herr := by cases herr
  best name hname := by
    cases hname
    refine charsetKnown_require ?_
    cases hprops : e.table.textProperties? id with
    | none => exact h.default
    | some props => exact h.formats id props hprops

end KnowsCharsets

/-! ## Export -/

theorem charsetKnown_exportablePaths (e : Engine) (source : Source) (f : Flavor)
    (v : TransferValue) : CharsetKnown (e.exportablePaths source f v) := by
  refine failsWith_exportablePaths (.inr ?_) e source
  rfl

/-- What is written by the kind of the format. -/
theorem run_exportValue_of_isObject (hv : isObject v = true)
    (hdirect : v.isDirect (e.takesCharset f id memo) asString = false) (source : Source) :
    (e.exportValue source f id asString v).run memo
      = (e.exportObject source f id v).run ((TextClassifier.isCharsetText f).run memo).2 := by
  rw [exportValue, Transfer.run_bind_of_ok (e.run_isCharsetText_eq f id memo)]
  cases v with
  | string text =>
    have hnot : ¬(asString || e.takesCharset f id memo) = true := by
      simpa [TransferValue.isDirect] using hdirect
    dsimp only
    rw [if_neg hnot]
  | fileList _ | stream _ | serializable _ | remote _ => rfl
  | _ => cases hv

theorem lacksCharset_exportUris_iff (e : Engine) (hid : e.table.kindOf id = .uriList)
    (source : Source) (f : Flavor) (v : TransferValue) (memo : SubtypeMemo) (name : String) :
    (Transfer.lift (e.exportUris source f id v)).LacksCharset memo name ↔
      e.table.MissesCharset id name := by
  rw [Transfer.lacksCharset_lift_iff]
  refine FormatTable.bind_require_eq_encodingUnsupported_iff (fun charset => ?_) hid
  exact (e.charsetKnown_exportablePaths source f v).bind (fun _ => .of_ok _)

/-- An object is written by the kind of the format. -/
theorem lacksCharset_exportObject_iff (he : e.IsStandard) (h : e.KnowsCharsets)
    (hrep : v.representation = expected f asString) (hv : isObject v = true) (source : Source)
    (memo : SubtypeMemo) (name : String) :
    (e.exportObject source f id v).LacksCharset memo name ↔ e.table.MissesCharset id name := by
  by_cases hid : e.table.kindOf id = .uriList
  · unfold exportObject
    rw [if_neg (FormatTable.not_isFileList_of_kindOf hid),
      if_pos (FormatTable.isUriList_iff.mpr hid)]
    exact e.lacksCharset_exportUris_iff hid source f v memo name
  · have hknown : (e.exportObject source f id v).CharsetKnownAt memo :=
      (h.failsAtMost he f id).failsWithAt_exportObject hrep hv
        (fun _ => e.charsetKnown_exportablePaths source f v)
        (fun huris => absurd (FormatTable.isUriList_iff.mp huris) hid) memo
    exact iff_of_false (Transfer.charsetKnownAt_iff.mp hknown name)
      (fun hmiss => hid hmiss.kindOf_eq)

theorem lacksCharset_exportValue_iff (he : e.IsStandard) (h : e.KnowsCharsets)
    (hrep : v.representation = expected f asString) (source : Source) (memo : SubtypeMemo)
    (name : String) :
    (e.exportValue source f id asString v).LacksCharset memo name ↔
      e.table.MissesCharset id name ∧ isObject v = true ∧
        v.isDirect (e.takesCharset f id memo) asString = false := by
  by_cases hv : isObject v = true ∧ v.isDirect (e.takesCharset f id memo) asString = false
  · rw [and_iff_left hv, Transfer.LacksCharset, run_exportValue_of_isObject hv.1 hv.2]
    exact lacksCharset_exportObject_iff he h hrep hv.1 source _ name
  · -- what is not left to the format is written in charsets that are known
    have hknown : (e.exportValue source f id asString v).CharsetKnownAt memo :=
      (h.failsAtMost he f id).failsWithAt_exportValue hrep (fun _ => .inr (fun _ => rfl))
        (fun _ => .inr rfl) (fun hobject hdirect => absurd ⟨hobject, hdirect⟩ hv)
    exact iff_of_false (Transfer.charsetKnownAt_iff.mp hknown name) (fun hmiss => hv hmiss.2)

/-- **An export lacks a charset exactly if a value is written by the kind of a format of file URIs,
and the charset of the format is missed.** -/
theorem lacksCharset_exportFrom_iff (he : e.IsStandard) (h : e.KnowsCharsets)
    {answer? : Option (TransferValue × Bool)} (hrequest : request source f = .ok answer?)
    (id : FormatId) (memo : SubtypeMemo) (name : String) :
    (e.exportFrom source f id).LacksCharset memo name ↔
      e.table.MissesCharset id name ∧ ∃ v asString, answer? = some (v, asString) ∧
        v.representation = expected f asString ∧ isObject v = true ∧
        v.isDirect (e.takesCharset f id memo) asString = false := by
  cases answer? with
  | none =>
    refine iff_of_false (fun hlacks => ?_) (by rintro ⟨-, v, asString, hnone, -⟩; cases hnone)
    rw [Transfer.LacksCharset, exportFrom, hrequest] at hlacks
    cases hlacks
  | some answer =>
    obtain ⟨v, asString⟩ := answer
    rw [Transfer.LacksCharset, run_exportFrom_of_request hrequest]
    by_cases hrep : v.representation = expected f asString
    · rw [if_pos hrep]
      refine Transfer.lacksCharset_map_iff.trans
        ((lacksCharset_exportValue_iff he h hrep source memo name).trans (and_congr_right' ?_))
      constructor
      · intro hv
        exact ⟨v, asString, rfl, hrep, hv⟩
      · rintro ⟨_, _, heq, -, hv⟩
        cases heq
        exact hv
    · rw [if_neg hrep]
      refine iff_of_false (by rintro ⟨⟩) ?_
      rintro ⟨-, _, _, heq, hother, -⟩
      cases heq
      exact hrep hother

/-! ## Import -/

theorem charsetKnownAt_importWhole (he : e.IsStandard) (h : e.KnowsCharsets) (bytes : Bytes)
    (f : Flavor) (id : FormatId) (charsetText : Bool) (memo : SubtypeMemo) :
    (e.importWhole bytes f id charsetText none).CharsetKnownAt memo :=
  (h.failsAtMost he f id).failsWithAt_importWhole (fun _ => .inr (fun _ => rfl))
    (fun _ => .inr rfl) bytes memo

/-- Only where files are read from file URIs the charset of the URIs is asked for. -/
theorem charsetKnownAt_importBytes (he : e.IsStandard) (h : e.KnowsCharsets)
    (hid : ¬(e.table.isUriList id && f.isFileList) = true) (bytes : Bytes) (memo : SubtypeMemo) :
    (e.importBytes bytes f id none).CharsetKnownAt memo := by
  rw [importBytes, if_neg hid]
  split
  · exact .of_lift ((h.failsAtMost he f id).failsWith_importFiles (.inr rfl) bytes) memo
  · refine .of_run (e.run_isCharsetText_eq f id memo) ?_
    exact .map some (charsetKnownAt_importWhole he h bytes f id _ _)

theorem charsetKnownAt_importStream (he : e.IsStandard) (h : e.KnowsCharsets)
    (hid : ¬(e.table.isUriList id && f.isFileList) = true) (s : ByteStream) (memo : SubtypeMemo) :
    (e.importStream s f id none).CharsetKnownAt memo := by
  have hfails := h.failsAtMost he f id
  have hread (after : SubtypeMemo) : (Transfer.lift s.requireAll).CharsetKnownAt after :=
    .of_lift (hfails.of_data s.failsByData_requireAll) after
  rw [importStream, if_neg hid]
  refine .of_run (e.run_isCharsetText_eq f id memo) ?_
  cases hrep : f.representation with
  | stream => exact .map some (hfails.failsWithAt_importByteStream hrep s _ _)
  | reader => exact .map some (hfails.failsWithAt_importReader (.inr rfl) s _)
  | image =>
    refine .bind (.of_lift (hfails.failsWith_imageFormat (.inr rfl)) _) (fun native after _ => ?_)
    refine .bind (hread after) (fun bytes last _ => .map some ?_)
    exact .of_lift (hfails.of_data (failsByData_importImage he bytes native)) last
  | charArray | charBuffer | byteBuffer =>
    exact .bind (hread _) (fun bytes after _ => charsetKnownAt_importBytes he h hid bytes after)
  | string | byteArray | fileList | serializable | remote =>
    exact .bind (hread _)
      (fun bytes after _ => .map some (charsetKnownAt_importWhole he h bytes f id _ after))

theorem importUris_eq_encodingUnsupported_iff (hid : e.table.kindOf id = .uriList) (bytes : Bytes) :
    e.importUris bytes id = .error (.encodingUnsupported name) ↔ e.table.MissesCharset id name :=
  FormatTable.bind_require_eq_encodingUnsupported_iff (fun _ => .of_ok _) hid

/-- A charset is only missed by a format of file URIs. -/
theorem not_missesCharset (hid : ¬(e.table.isUriList id && f.isFileList) = true) :
    ¬(e.table.MissesCharset id name ∧ f.isFileList = true) := by
  rintro ⟨hmiss, hf⟩
  exact hid (Bool.and_eq_true_iff.mpr ⟨FormatTable.isUriList_iff.mpr hmiss.kindOf_eq, hf⟩)

/-- **An import of bytes lacks a charset exactly if files are read from file URIs, and the charset
of the format is missed.** -/
theorem lacksCharset_importBytes_iff (he : e.IsStandard) (h : e.KnowsCharsets) (bytes : Bytes)
    (f : Flavor) (id : FormatId) (memo : SubtypeMemo) (name : String) :
    (e.importBytes bytes f id none).LacksCharset memo name ↔
      e.table.MissesCharset id name ∧ f.isFileList = true := by
  by_cases huris : (e.table.isUriList id && f.isFileList) = true
  · obtain ⟨hid, hf⟩ := Bool.and_eq_true_iff.mp huris
    have hkind := FormatTable.isUriList_iff.mp hid
    rw [importBytes, if_neg (FormatTable.not_isFileList_of_kindOf hkind), if_pos huris,
      and_iff_left hf]
    refine Transfer.lacksCharset_map_iff.trans (Transfer.lacksCharset_lift_iff.trans ?_)
    exact importUris_eq_encodingUnsupported_iff hkind bytes
  · have hknown := charsetKnownAt_importBytes he h huris bytes memo
    exact iff_of_false (Transfer.charsetKnownAt_iff.mp hknown name) (not_missesCharset huris)

/-- After a stream that ends well is read, it is up to its bytes. -/
theorem lacksCharset_bind_requireAll_iff {α : Type} {s : ByteStream} {next : Bytes → Transfer α} :
    (Transfer.lift s.requireAll >>= next).LacksCharset memo name ↔
      s.ending = .endOfData ∧ (next s.toBytes).LacksCharset memo name := by
  cases hend : s.ending with
  | endOfData =>
    rw [Transfer.LacksCharset, requireAll_of_ending hend,
      Transfer.run_bind_of_ok (Transfer.run_lift_ok _ _), and_iff_right rfl, Transfer.LacksCharset]
  | failure fault =>
    have hread : s.requireAll = .error (.io fault) := by
      rw [ByteStream.requireAll, ByteStream.readAll, hend]
    refine iff_of_false (fun hlacks => ?_) (by rintro ⟨⟨⟩, -⟩)
    rw [Transfer.LacksCharset, hread,
      Transfer.run_bind_of_error (Transfer.run_lift_error _ _)] at hlacks
    cases hlacks

/-- **An import of a stream lacks a charset exactly if its bytes do**, and they can be read. -/
theorem lacksCharset_importStream_iff (he : e.IsStandard) (h : e.KnowsCharsets) (s : ByteStream)
    (f : Flavor) (id : FormatId) (memo : SubtypeMemo) (name : String) :
    (e.importStream s f id none).LacksCharset memo name ↔
      s.ending = .endOfData ∧ e.table.MissesCharset id name ∧ f.isFileList = true := by
  by_cases huris : (e.table.isUriList id && f.isFileList) = true
  · obtain ⟨hid, hf⟩ := Bool.and_eq_true_iff.mp huris
    rw [importStream, if_pos huris, lacksCharset_bind_requireAll_iff, and_iff_left hf]
    refine and_congr_right' (Transfer.lacksCharset_map_iff.trans
      (Transfer.lacksCharset_lift_iff.trans ?_))
    exact importUris_eq_encodingUnsupported_iff (FormatTable.isUriList_iff.mp hid) _
  · have hknown := charsetKnownAt_importStream he h huris s memo
    exact iff_of_false (Transfer.charsetKnownAt_iff.mp hknown name)
      (fun hlacks => not_missesCharset huris hlacks.2)

end Engine

end Clipboard
