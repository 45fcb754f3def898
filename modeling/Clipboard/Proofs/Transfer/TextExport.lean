import Clipboard.Proofs.NativeText
import Clipboard.Proofs.Transfer.Export
import Clipboard.Proofs.Transfer.Import

/-!
# One text in several representations

A text may be offered as a string, as a character buffer, as an array of characters or as a character
stream (`TextOffer`). The last three are exported alike, as the text in the charset of the format, and
so is a string as a rule. If a read permission is in force and the string is a list of URIs, entries
that may not leave the process are taken out of it first: it is then exported like a shorter text in
another representation, while the text itself leaves whole in those (`exportFrom_text`).
-/

namespace Clipboard

/-- A text, offered as characters in a flavor of charset text. -/
structure TextOffer (text : List Char) where
  source : Source
  flavor : Flavor
  /-- What has been decided about subtypes when the text is exported. -/
  memo : SubtypeMemo
  value : TransferValue
  charsetText : ((TextClassifier.isCharsetText flavor).run memo).1 = true
  offered : source.data flavor = .ok (some value)
  shaped : value.representation = flavor.representation
  spelled : value.requireText = .ok text

namespace TextOffer

/-- A value that a source has as text of a subtype, without parameters. -/
def ofValue {text : List Char} (subtype : String) (v : TransferValue)
    (charsetText : ((TextClassifier.isCharsetText
      (.ofParts "text" subtype [] v.representation)).run .empty).1 = true)
    (spelled : v.requireText = .ok text) : TextOffer text where
  source :=
    { flavors := [.ofParts "text" subtype [] v.representation]
      data := fun _ => .ok (some v)
      permission := none }
  flavor := .ofParts "text" subtype [] v.representation
  memo := .empty
  value := v
  charsetText := charsetText
  offered := rfl
  shaped := rfl
  spelled := spelled

end TextOffer

namespace Engine

/-- What the export of the characters of a text results in. -/
def textExport (e : Engine) (id : FormatId) (text : List Char) : Except Failure (Option Bytes) :=
  match e.encodeText id text with
  | .ok bytes => .ok (some bytes)
  | .error err => .error (.error err)

variable {e : Engine} {id : FormatId} {text other : List Char} {cs : Charset} {source : Source}
  {f : Flavor} {memo : SubtypeMemo} {v : TransferValue}

theorem textExport_inj :
    e.textExport id text = e.textExport id other ↔ e.encodeText id text = e.encodeText id other := by
  constructor
  · intro h
    rw [textExport, textExport] at h
    cases hfirst : e.encodeText id text <;> cases hsecond : e.encodeText id other <;>
      rw [hfirst, hsecond] at h <;> cases h <;> rfl
  · intro h
    rw [textExport, textExport, h]

/-- In a charset that is supported every text has bytes. -/
theorem textExport_of_ofName? (hcharset : Charset.ofName? (e.textProperties id).charset = some cs) :
    e.textExport id text = .ok (some (NativeText.stored (e.textProperties id) cs text)) := by
  rw [textExport, encodeText, NativeText.encode, Charset.require, hcharset]
  rfl

/-- What is written of a text in some representation: of a string that is a list of URIs only the
entries that may leave. -/
def writtenText (e : Engine) (source : Source) (f : Flavor) (rep : Representation)
    (text : List Char) : List Char :=
  if rep = .string then e.withoutSuspect source f text else text

/-- In a text format the characters of a value of charset text are written. -/
theorem run_exportValue_of_requireText (hformat : e.table.isText id = true)
    (hcharsetText : ((TextClassifier.isCharsetText f).run memo).1 = true)
    (htext : v.requireText = .ok text) :
    (e.exportValue source f id false v).run memo
      = (Transfer.lift (e.encodeText id (e.writtenText source f v.representation text))).run
          ((TextClassifier.isCharsetText f).run memo).2 := by
  rw [exportValue, Transfer.run_bind_of_ok (run_isCharsetText hformat hcharsetText), writtenText]
  cases v with
  | string chars =>
    obtain rfl : chars = text := Except.ok.inj htext
    have hrep : (TransferValue.string chars).representation = .string := rfl
    dsimp only
    rw [Bool.or_true, if_pos rfl, if_pos hrep]
  | charBuffer chars | charArray chars =>
    obtain rfl : chars = text := Except.ok.inj htext
    dsimp only [exportChars]
    rw [if_pos rfl, if_neg (fun h => by cases h)]
  | reader s =>
    have hread : TransferValue.readText s = .ok text := htext
    dsimp only [exportChars]
    rw [if_pos rfl, hread, if_neg (fun h => by cases h)]
  -- no characters
  | byteArray bytes | byteBuffer bytes | stream s | fileList paths | image i | serializable o
  | remote o =>
    cases htext

end Engine

namespace TextOffer

variable {e : Engine} {id : FormatId} {text : List Char}

/-- What the export of the offer results in. -/
def exported (e : Engine) (id : FormatId) (offer : TextOffer text) :
    Except Failure (Option Bytes) :=
  ((e.exportFrom offer.source offer.flavor id).run offer.memo).1

/-- What is written of the text. -/
def written (e : Engine) (offer : TextOffer text) : List Char :=
  e.writtenText offer.source offer.flavor offer.flavor.representation text

/-- The export of an offer is that of what is written of its text. -/
theorem exported_eq (hformat : e.table.isText id = true) (offer : TextOffer text) :
    offer.exported e id = e.textExport id (offer.written e) := by
  rw [exported, Engine.run_exportFrom_of_representation offer.offered offer.shaped, Transfer.run_map,
    Engine.run_exportValue_of_requireText hformat offer.charsetText offer.spelled, offer.shaped,
    Engine.textExport, written]
  cases e.encodeText id (e.writtenText offer.source offer.flavor offer.flavor.representation text) with
  | ok bytes => rfl
  | error err => rfl

/-- Only of a string something may be missing. -/
theorem written_of_ne_string {offer : TextOffer text}
    (h : offer.flavor.representation ≠ .string) : offer.written e = text := by
  rw [written, Engine.writtenText, if_neg h]

/-- Of a string nothing is missing if no permission is in force, or if it is no list of URIs. -/
theorem written_of_unrestricted {offer : TextOffer text}
    (h : e.permissionFor offer.source = none ∨ offer.flavor.hasBase Flavor.uriListBase = false) :
    offer.written e = text := by
  have hwhole : e.withoutSuspect offer.source offer.flavor text = text := by
    rw [Engine.withoutSuspect]
    rcases h with hnone | hbase
    · rw [hnone]
    · cases e.permissionFor offer.source with
      | none => rfl
      | some permission => exact if_neg (Bool.eq_false_iff.mp hbase)
  rw [written, Engine.writtenText, hwhole, ite_self]

theorem written_of_restricted {offer : TextOffer text} {permission : ReadPermission}
    (hstring : offer.flavor.representation = .string)
    (hpermission : e.permissionFor offer.source = some permission)
    (hbase : offer.flavor.hasBase Flavor.uriListBase = true) :
    offer.written e = FileExport.removeSuspect e.host.files e.cacheDirs permission text := by
  rw [written, Engine.writtenText, if_pos hstring, Engine.withoutSuspect, hpermission]
  exact if_pos hbase

end TextOffer

namespace Engine

variable {e : Engine} {id : FormatId} {text : List Char}

/-- **A text is exported to the same bytes in every representation, lists of URIs under a read
permission apart.** As a character buffer, as an array of characters and as a character stream it
always is. Of a string that is a list of URIs the entries that may not leave are taken out: it is
exported like what is left, offered in another representation. -/
theorem exportFrom_text (hformat : e.table.isText id = true)
    (string charBuffer charArray reader : TextOffer text)
    (hstring : string.flavor.representation = .string)
    (hbuffer : charBuffer.flavor.representation = .charBuffer)
    (harray : charArray.flavor.representation = .charArray)
    (hreader : reader.flavor.representation = .reader) :
    charBuffer.exported e id = reader.exported e id ∧
    charArray.exported e id = reader.exported e id ∧
    (∀ cs, Charset.ofName? (e.textProperties id).charset = some cs →
      reader.exported e id
        = .ok (some (NativeText.stored (e.textProperties id) cs text))) ∧
    (e.permissionFor string.source = none ∨ string.flavor.hasBase Flavor.uriListBase = false →
      string.exported e id = reader.exported e id) ∧
    ∀ permission, e.permissionFor string.source = some permission →
      string.flavor.hasBase Flavor.uriListBase = true →
      let kept := FileExport.removeSuspect e.host.files e.cacheDirs permission text
      (string.exported e id = reader.exported e id ↔ e.encodeText id kept = e.encodeText id text) ∧
        ∀ other : TextOffer kept, other.flavor.representation ≠ .string →
          string.exported e id = other.exported e id := by
  have hwhole {t : List Char} (offer : TextOffer t) (h : offer.flavor.representation ≠ .string) :
      offer.exported e id = e.textExport id t := by
    rw [offer.exported_eq hformat, TextOffer.written_of_ne_string h]
  have hbufferWhole := hwhole charBuffer (by rw [hbuffer]; decide)
  have harrayWhole := hwhole charArray (by rw [harray]; decide)
  have hreaderWhole := hwhole reader (by rw [hreader]; decide)
  refine ⟨hbufferWhole.trans hreaderWhole.symm, harrayWhole.trans hreaderWhole.symm, ?_, ?_, ?_⟩
  · intro cs hcharset
    rw [hreaderWhole, textExport_of_ofName? hcharset]
  · intro hunrestricted
    rw [string.exported_eq hformat, TextOffer.written_of_unrestricted hunrestricted, hreaderWhole]
  · intro permission hpermission hbase kept
    have hkept : string.exported e id = e.textExport id kept := by
      rw [string.exported_eq hformat, TextOffer.written_of_restricted hstring hpermission hbase]
    constructor
    · rw [hkept, hreaderWhole, textExport_inj]
    · intro other hother
      rw [hkept, hwhole other hother]

/-- An HTML text under a permission that nothing has: it is exported whole from all four. -/
theorem exportFrom_text_html :
    let props : TextProperties := { charset := "UTF-8", eoln := none, terminators := 1 }
    let native : NativeFormat :=
      { id := ⟨0xC200⟩, name := "HTML", kind := .plain, localeDependent := false, text := some props }
    let e : Engine := { ofFormat native with permission := some (fun _ => false) }
    let string : TextOffer ['x'] := .ofValue "html" (.string ['x']) (by decide +kernel) rfl
    let charBuffer : TextOffer ['x'] := .ofValue "html" (.charBuffer ['x']) (by decide +kernel) rfl
    let charArray : TextOffer ['x'] := .ofValue "html" (.charArray ['x']) (by decide +kernel) rfl
    let reader : TextOffer ['x'] :=
      .ofValue "html" (.reader (.ofBytes (Charset.utf8.encode ['x']))) (by decide +kernel)
        (TransferValue.readText_ofBytes ['x'])
    string.exported e native.id = .ok (some [0x78, 0]) ∧
      charBuffer.exported e native.id = .ok (some [0x78, 0]) ∧
      charArray.exported e native.id = .ok (some [0x78, 0]) ∧
      reader.exported e native.id = .ok (some [0x78, 0]) := by
  intro props native e string charBuffer charArray reader
  have hformat : e.table.isText native.id = true := by decide +kernel
  have hcharset : Charset.ofName? (e.textProperties native.id).charset = some .utf8 := by
    decide +kernel
  have hbase : string.flavor.hasBase Flavor.uriListBase = false := by decide +kernel
  obtain ⟨hbuffer, harray, hwhole, hstring, -⟩ :=
    exportFrom_text hformat string charBuffer charArray reader rfl rfl rfl rfl
  have hbytes : NativeText.stored (e.textProperties native.id) .utf8 ['x'] = [0x78, 0] := by
    decide +kernel
  have hreader : reader.exported e native.id = .ok (some [0x78, 0]) :=
    (hwhole .utf8 hcharset).trans (congrArg (Except.ok ∘ some) hbytes)
  exact ⟨(hstring (Or.inr hbase)).trans hreader, hbuffer.trans hreader, harray.trans hreader, hreader⟩

/-- A list of URIs under a permission that nothing has: as a string nothing of it is exported, in any
other representation all of it. -/
theorem exportFrom_text_discloses :
    let props : TextProperties := { charset := "UTF-8", eoln := none, terminators := 0 }
    let native : NativeFormat :=
      { id := ⟨0xC200⟩, name := "UriText", kind := .plain, localeDependent := false,
        text := some props }
    let e : Engine := { ofFormat native with permission := some (fun _ => false) }
    let string : TextOffer ['x'] := .ofValue "uri-list" (.string ['x']) (by decide +kernel) rfl
    let charBuffer : TextOffer ['x'] :=
      .ofValue "uri-list" (.charBuffer ['x']) (by decide +kernel) rfl
    let charArray : TextOffer ['x'] := .ofValue "uri-list" (.charArray ['x']) (by decide +kernel) rfl
    let reader : TextOffer ['x'] :=
      .ofValue "uri-list" (.reader (.ofBytes (Charset.utf8.encode ['x']))) (by decide +kernel)
        (TransferValue.readText_ofBytes ['x'])
    string.exported e native.id = .ok (some []) ∧
      charBuffer.exported e native.id = .ok (some [0x78]) ∧
      charArray.exported e native.id = .ok (some [0x78]) ∧
      reader.exported e native.id = .ok (some [0x78]) := by
  intro props native e string charBuffer charArray reader
  have hformat : e.table.isText native.id = true := by decide +kernel
  have hbase : string.flavor.hasBase Flavor.uriListBase = true := by decide +kernel
  have hnothing : FileExport.removeSuspect e.host.files e.cacheDirs (fun _ => false) ['x'] = [] := by
    simp only [FileExport.removeSuspect, FileExport.isPermitted, Bool.and_false]
    rfl
  have hcharset : Charset.ofName? (e.textProperties native.id).charset = some .utf8 := by
    decide +kernel
  have hempty : NativeText.stored (e.textProperties native.id) .utf8 [] = [] := by decide +kernel
  have hbytes : NativeText.stored (e.textProperties native.id) .utf8 ['x'] = [0x78] := by
    decide +kernel
  have hwritten (t : List Char) (bytes : Bytes)
      (h : NativeText.stored (e.textProperties native.id) .utf8 t = bytes) :
      e.textExport native.id t = .ok (some bytes) := by
    rw [textExport_of_ofName? hcharset, h]
  have hstring : string.written e = [] :=
    (TextOffer.written_of_restricted rfl rfl hbase).trans hnothing
  have hwhole (offer : TextOffer ['x']) (h : offer.flavor.representation ≠ .string) :
      offer.exported e native.id = .ok (some [0x78]) := by
    rw [offer.exported_eq hformat, TextOffer.written_of_ne_string h, hwritten ['x'] [0x78] hbytes]
  refine ⟨?_, hwhole charBuffer (by decide), hwhole charArray (by decide), hwhole reader (by decide)⟩
  rw [string.exported_eq hformat, hstring, hwritten [] [] hempty]

end Engine

end Clipboard
