import Clipboard.Proofs.Transfer.Shape

/-!
# Sources that name no charset

An import looks at the source that comes along in one place only, for the charset that the bytes of
the format are in (`importData_congr`). A source is asked for it if the charset of the format
depends on the locale and the source offers to name it. If it is not asked, it might as well not be
there. If it is asked and has no answer, the import is not the one without a source: it is as if the
source had named the default charset, whatever the format's own is (`importData_unnamed`).
-/

namespace Clipboard

/-- A source that names a charset and has nothing else. -/
def Source.naming (charset : String) : Source where
  flavors := [Flavor.textEncoding]
  data _ := .ok (some (.byteArray (Utf8.encode charset.toList)))
  permission := none

namespace Engine

variable {e : Engine} {id : FormatId} {locale : Source} {first? second? : Option Source}

/-! ## The charset of a format -/

/-- The charset that a format is read in when no source comes along. -/
def ownCharset (e : Engine) (id : FormatId) : String :=
  ((e.table.textProperties? id).map TextProperties.charset).getD e.defaultCharset

/-- The source is asked for the charset of the format. -/
def Asks (e : Engine) (id : FormatId) (locale : Source) : Prop :=
  e.table.isLocaleDependent id = true ∧ locale.isOffered Flavor.textEncoding = true

instance (e : Engine) (id : FormatId) (locale : Source) : Decidable (e.Asks id locale) :=
  inferInstanceAs (Decidable (_ ∧ _))

theorem bestCharset_none (e : Engine) (id : FormatId) :
    e.bestCharset id none = .ok (e.ownCharset id) := rfl

/-- A source that is not asked does not matter. -/
theorem bestCharset_of_not_asks (h : ¬e.Asks id locale) :
    e.bestCharset id (some locale) = e.bestCharset id none := by
  have hasked : ¬(e.table.isLocaleDependent id && locale.isOffered Flavor.textEncoding) = true := by
    rwa [Bool.and_eq_true]
  simp only [bestCharset, if_neg hasked]

/-- A source that is asked decides, even if it has no data. -/
theorem bestCharset_of_asks (h : e.Asks id locale) :
    e.bestCharset id (some locale)
      = (suppliedCharset locale).map (fun charset? => charset?.getD e.defaultCharset) := by
  have hasked : (e.table.isLocaleDependent id && locale.isOffered Flavor.textEncoding) = true := by
    rwa [Bool.and_eq_true]
  simp only [bestCharset, if_pos hasked]

theorem bestCharset_of_no_data (h : e.Asks id locale)
    (hdata : locale.data Flavor.textEncoding = .ok none) :
    e.bestCharset id (some locale) = .ok e.defaultCharset := by
  rw [bestCharset_of_asks h, suppliedCharset, hdata]
  rfl

theorem bestCharset_naming (h : e.table.isLocaleDependent id = true) (name : String) :
    e.bestCharset id (some (.naming name)) = .ok name := by
  have hasks : e.Asks id (.naming name) := ⟨h, by simp [Source.isOffered, Source.naming]⟩
  have hname : suppliedCharset (.naming name) = .ok (some name) := by
    simp only [suppliedCharset, Source.naming, Utf8.decodeLossy_encode, String.ofList_toList]
  rw [bestCharset_of_asks hasks, hname]
  rfl

/-- The charset that the bytes of a format are in, if there is one of that name. -/
def nativeCharset (e : Engine) (id : FormatId) (locale? : Option Source) : Transfer Charset := do
  let name ← Transfer.ofExcept (e.bestCharset id locale?)
  Transfer.lift (Charset.require name)

theorem nativeCharset_of_bestCharset {name name' : String}
    (hfirst : e.bestCharset id first? = .ok name) (hsecond : e.bestCharset id second? = .ok name')
    (h : Charset.require name = Charset.require name') :
    e.nativeCharset id first? = e.nativeCharset id second? := by
  have hpure (name : String) :
      (Transfer.ofExcept (.ok name) >>= fun name => Transfer.lift (Charset.require name))
        = Transfer.lift (Charset.require name) := rfl
  rw [nativeCharset, nativeCharset, hfirst, hsecond, hpure, hpure, h]

/-! ## Imports that read the same charset -/

theorem decodeText_eq (e : Engine) (bytes : Bytes) (id : FormatId) (locale? : Option Source) :
    e.decodeText bytes id locale? = (do
      let charset ← e.nativeCharset id locale?
      return NativeText.fromNativeLines (e.textProperties id) (charset.decode
        (NativeText.untilTerminator (e.textProperties id).terminators bytes))) := by
  rw [decodeText, nativeCharset, bind_assoc]
  congr 1
  funext name
  rw [NativeText.decode, Option.getD_some]
  cases Charset.require name <;> rfl

theorem reencoded_eq_bind (e : Engine) (s : ByteStream) (id : FormatId) (target : Charset)
    (locale? : Option Source) :
    e.reencoded s id target locale? = (do
      let own ← e.nativeCharset id locale?
      return (NativeText.Reencoder.new own target (e.textProperties id) s).toStream) := by
  rw [reencoded, nativeCharset, bind_assoc]

theorem importWhole_congr (h : e.nativeCharset id first? = e.nativeCharset id second?)
    (bytes : Bytes) (f : Flavor) (charsetText : Bool) :
    e.importWhole bytes f id charsetText first? = e.importWhole bytes f id charsetText second? := by
  simp only [importWhole, flavorBytes, importReader, importByteStream, decodeText_eq,
    reencoded_eq_bind, h]

theorem importBytes_congr (h : e.nativeCharset id first? = e.nativeCharset id second?)
    (bytes : Bytes) (f : Flavor) :
    e.importBytes bytes f id first? = e.importBytes bytes f id second? := by
  simp only [importBytes, importWhole_congr h]

/-- **An import depends on the source through the charset only.** -/
theorem importData_congr (h : e.nativeCharset id first? = e.nativeCharset id second?) (f : Flavor)
    (data : NativeData) : e.importData f id first? data = e.importData f id second? data := by
  cases data with
  | bytes bytes => exact importBytes_congr h bytes f
  | stream s =>
    simp only [importData, importStream, importReader, importByteStream, reencoded_eq_bind,
      importWhole_congr h, importBytes_congr h, h]

/-! ## Strings -/

/-- A string is the text of the bytes. -/
theorem importBytes_string (htext : e.table.isText id = true)
    (hfiles : e.table.isFileList id = false) (bytes : Bytes) (locale? : Option Source) :
    e.importBytes bytes Flavor.string id locale?
      = (fun text => some (.string text)) <$> e.decodeText bytes id locale? := by
  have hcharsetText : e.isCharsetText Flavor.string id = pure true := by
    rw [isCharsetText, htext]
    rfl
  have huris : ¬(e.table.isUriList id && Flavor.string.isFileList) = true := by
    rw [show Flavor.string.isFileList = false from rfl, Bool.and_false]
    decide
  have hrep : Flavor.string.representation = .string := rfl
  rw [importBytes, if_neg (by simp [hfiles]), if_neg huris, hcharsetText, pure_bind, importWhole,
    hrep]
  simp only [if_true, bind_assoc, pure_bind]
  exact (map_eq_pure_bind _ _).symm

theorem decodeText_of_bestCharset {locale? : Option Source} {name : String}
    (h : e.bestCharset id locale? = .ok name) (bytes : Bytes) :
    e.decodeText bytes id locale?
      = Transfer.lift (NativeText.decode (e.textProperties id) (some name) bytes) := by
  rw [decodeText, h]
  rfl

theorem eq_of_map_lift_eq {x y : Except Error (List Char)}
    (h : (fun text => some (TransferValue.string text)) <$> Transfer.lift x
      = (fun text => some (TransferValue.string text)) <$> Transfer.lift y) : x = y := by
  have hrun := congrArg (fun t => (Transfer.run t .empty).1) h
  cases x with
  | error err =>
    cases y with
    | error err' =>
      have herr : Except.error (Failure.error err) = Except.error (Failure.error err') := hrun
      cases herr
      rfl
    | ok text' => cases hrun
  | ok text =>
    cases y with
    | error err' => cases hrun
    | ok text' =>
      have htext : Except.ok (some (TransferValue.string text))
        = Except.ok (some (TransferValue.string text')) := hrun
      cases htext
      rfl

/-- Imports of a string are the same just if the bytes are the same text in both charsets. -/
theorem importBytes_string_eq_iff {name name' : String} (htext : e.table.isText id = true)
    (hfiles : e.table.isFileList id = false) (hfirst : e.bestCharset id first? = .ok name)
    (hsecond : e.bestCharset id second? = .ok name') (bytes : Bytes) :
    e.importBytes bytes Flavor.string id first? = e.importBytes bytes Flavor.string id second? ↔
      NativeText.decode (e.textProperties id) (some name) bytes
        = NativeText.decode (e.textProperties id) (some name') bytes := by
  rw [importBytes_string htext hfiles, importBytes_string htext hfiles,
    decodeText_of_bestCharset hfirst, decodeText_of_bestCharset hsecond]
  constructor
  · exact eq_of_map_lift_eq
  · intro h
    rw [h]

/-! ## Sources without a charset -/

/-- **What a source without a charset changes.** Nothing, if it is not asked for one, because the
charset of the format does not depend on the locale or because the source does not offer to name it.
A source that is asked and has no data has the effect of one that names the default charset. That is
no effect if the format's own charset is the default one; and if it is another, then any bytes that
are another text in it are imported as another string. -/
theorem importData_unnamed (e : Engine) (f : Flavor) (id : FormatId) (data : NativeData)
    (locale : Source) :
    (¬e.Asks id locale → e.importData f id (some locale) data = e.importData f id none data) ∧
      (e.Asks id locale → locale.data Flavor.textEncoding = .ok none →
        e.importData f id (some locale) data
            = e.importData f id (some (.naming e.defaultCharset)) data ∧
          (Charset.require e.defaultCharset = Charset.require (e.ownCharset id) →
            e.importData f id (some locale) data = e.importData f id none data) ∧
          ∀ bytes, e.table.isText id = true → e.table.isFileList id = false →
            (e.importData Flavor.string id (some locale) (.bytes bytes)
                = e.importData Flavor.string id none (.bytes bytes) ↔
              NativeText.decode (e.textProperties id) (some e.defaultCharset) bytes
                = NativeText.decode (e.textProperties id) (some (e.ownCharset id)) bytes)) := by
  constructor
  · intro hasks
    have hown : e.bestCharset id (some locale) = .ok (e.ownCharset id) :=
      bestCharset_of_not_asks hasks
    exact importData_congr (nativeCharset_of_bestCharset hown (bestCharset_none e id) rfl) f data
  · intro hasks hdata
    have hdefault : e.bestCharset id (some locale) = .ok e.defaultCharset :=
      bestCharset_of_no_data hasks hdata
    have hnaming := bestCharset_naming hasks.1 e.defaultCharset
    have hnone := bestCharset_none e id
    refine ⟨?_, ?_, ?_⟩
    · exact importData_congr (nativeCharset_of_bestCharset hdefault hnaming rfl) f data
    · intro hsame
      exact importData_congr (nativeCharset_of_bestCharset hdefault hnone hsame) f data
    · intro bytes htext hfiles
      exact importBytes_string_eq_iff htext hfiles hdefault hnone bytes

/-- A source that offers to name a charset and has no data. -/
def silent : Source :=
  { flavors := [Flavor.textEncoding], data := fun _ => .ok none, permission := none }

/-- The format's own charset is another name of the default one, so that nothing changes. -/
theorem importData_unnamed_alias :
    let native : NativeFormat :=
      { id := .text, name := "TEXT", kind := .plain, localeDependent := true,
        text := some { charset := "utf8", eoln := some "\r\n", terminators := 1 } }
    let e := ofFormat native
    let f := Flavor.ofParts "text" "plain" [] .reader
    let data : NativeData :=
      .stream { deliveries := [.bytes 0xC3 [], .interrupted, .bytes 0xA9 [0x00]],
                ending := .endOfData }
    ¬e.Asks .text (Source.ofText ['x']) ∧ e.Asks .text silent ∧
      silent.data Flavor.textEncoding = .ok none ∧
      Charset.require e.defaultCharset = Charset.require (e.ownCharset .text) ∧
      e.importData f .text (some (Source.ofText ['x'])) data = e.importData f .text none data ∧
      e.importData f .text (some silent) data = e.importData f .text none data := by
  intro native e f data
  have hnot : ¬e.Asks .text (Source.ofText ['x']) := by decide +kernel
  have hasks : e.Asks .text silent := by decide +kernel
  have hdefault : Charset.ofName? e.defaultCharset = some .utf8 := by decide +kernel
  have hown : Charset.ofName? (e.ownCharset .text) = some .utf8 := by decide +kernel
  have hsame : Charset.require e.defaultCharset = Charset.require (e.ownCharset .text) := by
    rw [Charset.require, Charset.require, hdefault, hown]
  obtain ⟨hother, -⟩ := importData_unnamed e f .text data (Source.ofText ['x'])
  obtain ⟨-, hsilent⟩ := importData_unnamed e f .text data silent
  exact ⟨hnot, hasks, rfl, hsame, hother hnot, (hsilent hasks rfl).2.1 hsame⟩

/-- A source without a charset makes another string of the same bytes. -/
theorem importData_silent_ne :
    let native : NativeFormat :=
      { id := .text, name := "TEXT", kind := .plain, localeDependent := true,
        text := some { charset := "windows-1252", eoln := none, terminators := 0 } }
    let e := ofFormat native
    e.Asks .text silent ∧ silent.data Flavor.textEncoding = .ok none ∧
      (e.importData Flavor.string .text none (.bytes [0xE9])).run .empty
        = (.ok (some (.string ['é'])), .empty) ∧
      (e.importData Flavor.string .text (some silent) (.bytes [0xE9])).run .empty
        = (.ok (some (.string ['\ufffd'])), .empty) := by
  intro native e
  have hasks : e.Asks .text silent := by decide +kernel
  have hstring {locale? : Option Source} {name : String} {cs : Charset} {text : List Char}
      (hname : e.bestCharset .text locale? = .ok name) (hcs : Charset.ofName? name = some cs)
      (htext : cs.decode [0xE9] = text) :
      (e.importData Flavor.string .text locale? (.bytes [0xE9])).run .empty
        = (.ok (some (.string text)), .empty) := by
    have hall : NativeText.untilTerminator 0 [0xE9] = [0xE9] := by
      simp [NativeText.untilTerminator, NativeText.terminatedLength]
    have hprops : e.textProperties .text
        = { charset := "windows-1252", eoln := none, terminators := 0 } := rfl
    rw [importData, importBytes_string rfl rfl, decodeText_of_bestCharset hname, NativeText.decode,
      Option.getD_some, Charset.require, hcs, hprops, hall, ← htext]
    rfl
  refine ⟨hasks, rfl, ?_, ?_⟩
  · have hcs : Charset.ofName? (e.ownCharset .text) = some .windows1252 := by decide +kernel
    exact hstring (bestCharset_none e .text) hcs (by decide)
  · have hcs : Charset.ofName? e.defaultCharset = some .utf8 := by decide +kernel
    exact hstring (bestCharset_of_no_data hasks rfl) hcs (by decide +kernel)

end Engine

end Clipboard
