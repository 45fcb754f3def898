import Clipboard.Proofs.Config.Validated
import Clipboard.Proofs.Negotiation.Supported
import Clipboard.Proofs.Transfer.Charsets

/-!
# Charsets that a validation has not looked at

The validation looks at the default charset and at those of the text formats, so the engine of a
configuration that passes it knows them (`Valid.knowsCharsets`). It does not look at the charset
that the name of a list of file URIs may give (`FormatEntry.MissesCharset`). That is the one charset
that a conversion can fail for, and it does whenever it is asked for (`lacksCharset_iff`).
-/

namespace Clipboard

/-- The entry is one of file URIs, and its name gives a charset that is not known. -/
def FormatEntry.MissesCharset (entry : FormatEntry) (name : String) : Prop :=
  entry.kind = .uriList ∧ (MimeType.parse? entry.name).bind (·.param? "charset") = some name ∧
    Charset.isSupported name = false

instance (entry : FormatEntry) (name : String) : Decidable (entry.MissesCharset name) :=
  inferInstanceAs (Decidable (_ ∧ _ ∧ _))

namespace Config

variable {c : Config} {t : FormatTable} {host : Host} {engine : Engine} {native : NativeFormat}
  {entry : FormatEntry} {es : List FormatEntry} {id : FormatId}

/-! ## Formats and entries -/

/-- The table of a configuration that makes sense is that of its entries. -/
theorem Valid.tabulates (h : c.Valid) (ht : c.table = .ok t) : c.Tabulates c.formats t := by
  obtain ⟨t', htable, htabulates⟩ := (Tabulates.empty c).addEntries h.entries h.apart .empty
  cases ht.symm.trans htable
  exact htabulates

theorem Valid.exists_engine (h : c.Valid) (host : Host) : ∃ engine, c.engine host = .ok engine := by
  obtain ⟨t, htable, -⟩ := (Tabulates.empty c).addEntries h.entries h.apart .empty
  have ht : c.table = .ok t := htable
  exact ⟨_, by rw [Config.engine, ht]⟩

/-- Every format is that of an entry. -/
theorem Tabulates.of_native? (h : c.Tabulates es t) (hnative : t.native? id = some native) :
    ∃ entry ∈ es, entry.id = id ∧ entry.Describes c.canonicalDefault native := by
  have hid : native.id = id := by simpa using List.find?_some hnative
  obtain ⟨entry, hmem, hdescribes⟩ := h.exists_entry (List.mem_of_find?_eq_some hnative)
  exact ⟨entry, hmem, hdescribes.id.symm.trans hid, hdescribes⟩

/-- Every entry, if the numbers are all different, is that of a format. -/
theorem Tabulates.exists_native? (h : c.Tabulates es t) (hids : (es.map FormatEntry.id).Nodup)
    (hentry : entry ∈ es) :
    ∃ native, t.native? entry.id = some native ∧ entry.Describes c.canonicalDefault native := by
  obtain ⟨ns, hns, hperm⟩ := h.formats
  obtain ⟨native, hmem, hdescribes⟩ := exists_of_forall₂ hns.flip entry hentry
  have hfind : (t.native? entry.id).isSome = true := by
    rw [FormatTable.native?, List.find?_isSome]
    exact ⟨native, hperm.mem_iff.mpr hmem, decide_eq_true hdescribes.id⟩
  obtain ⟨found, hfound⟩ := Option.isSome_iff_exists.mp hfind
  obtain ⟨other, hother, hid, hothers⟩ := h.of_native? hfound
  cases List.inj_on_of_nodup_map hids hother hentry hid
  exact ⟨found, hfound, hothers⟩

theorem Valid.nodup_ids (h : c.Valid) : (c.formats.map FormatEntry.id).Nodup := by
  rw [List.Nodup, List.pairwise_map]
  exact h.apart.imp And.left

/-- A format misses a charset if its entry does. -/
theorem Valid.missesCharset_iff (h : c.Valid) (ht : c.table = .ok t) (id : FormatId)
    (name : String) :
    t.MissesCharset id name ↔ ∃ entry ∈ c.formats, entry.id = id ∧ entry.MissesCharset name := by
  have htabulates := h.tabulates ht
  constructor
  · rintro ⟨native, hnative, hkind, hname, hcharset⟩
    obtain ⟨entry, hentry, hid, hdescribes⟩ := htabulates.of_native? hnative
    rw [NativeFormat.nameCharset?, hdescribes.name] at hname
    exact ⟨entry, hentry, hid, hdescribes.kind.symm.trans hkind, hname, hcharset⟩
  · rintro ⟨entry, hentry, rfl, hkind, hname, hcharset⟩
    obtain ⟨native, hnative, hdescribes⟩ := htabulates.exists_native? h.nodup_ids hentry
    rw [← hdescribes.name] at hname
    exact ⟨native, hnative, hdescribes.kind.trans hkind, hname, hcharset⟩

/-! ## Charsets that have been looked at -/

theorem isSupported_canonicalDefault (h : c.Valid) :
    Charset.isSupported c.canonicalDefault = true := by
  obtain ⟨charset, hcharset⟩ := Option.isSome_iff_exists.mp h.defaultCharset
  rw [canonicalDefault, Charset.canonicalName_of_ofName? hcharset, Charset.isSupported,
    Charset.ofName?_name]
  rfl

/-- **The engine of a configuration that makes sense knows its charsets.** -/
theorem Valid.knowsCharsets (h : c.Valid) (he : c.engine host = .ok engine) :
    engine.KnowsCharsets := by
  have hdefault : engine.defaultCharset = c.canonicalDefault := by
    rw [Config.engine] at he
    split at he
    · cases he
    · cases he
      rw [Engine.withCacheProperties, Engine.new, canonicalDefault]
  have htabulates := h.tabulates (of_engine he).1
  refine ⟨hdefault ▸ isSupported_canonicalDefault h, fun id props hprops => ?_⟩
  obtain ⟨native, hnative, htext⟩ := Option.bind_eq_some_iff.mp hprops
  obtain ⟨entry, hentry, -, hdescribes⟩ := htabulates.of_native? hnative
  cases hsome : entry.text with
  | none =>
    rw [hdescribes.noText hsome] at htext
    cases htext
  | some text =>
    obtain ⟨_, hregistered, hgives⟩ := hdescribes.text text hsome
    cases hregistered.symm.trans htext
    -- a text format without a name for its charset, or with an empty one, has the default charset
    by_cases hnamed : ∃ name, text.charset = some name ∧ name ≠ ""
    · obtain ⟨name, hcharset, hne⟩ := hnamed
      rw [hgives.charset name hcharset hne]
      exact ((h.entries entry hentry).text text hsome).charset name hcharset hne
    · rw [hgives.noCharset (fun name hname => by_contra (fun hne => hnamed ⟨name, hname, hne⟩)),
        isSupported_canonicalDefault h]

/-- **The charsets that conversions fail for**: with a configuration that passes its validation, and
no source to name the charset, they are those that the names of formats of file URIs give and that
are not known. An export fails for such a charset whenever a value is written by the kind of the
format, and the import of such a format does whenever files are read. -/
theorem lacksCharset_iff (h : c.validate = .ok ()) (he : c.engine host = .ok engine) (id : FormatId)
    (f : Flavor) (memo : SubtypeMemo) (name : String) :
    (∀ source answer?, Engine.request source f = .ok answer? →
      ((engine.exportFrom source f id).LacksCharset memo name ↔
        (∃ entry ∈ c.formats, entry.id = id ∧ entry.MissesCharset name) ∧
          ∃ v asString, answer? = some (v, asString) ∧
            v.representation = Engine.expected f asString ∧ Engine.isObject v = true ∧
            v.isDirect (engine.takesCharset f id memo) asString = false)) ∧
    (∀ bytes, (engine.importBytes bytes f id none).LacksCharset memo name ↔
      (∃ entry ∈ c.formats, entry.id = id ∧ entry.MissesCharset name) ∧ f.isFileList = true) ∧
    ∀ s : ByteStream, (engine.importStream s f id none).LacksCharset memo name ↔
      s.ending = .endOfData ∧
        (∃ entry ∈ c.formats, entry.id = id ∧ entry.MissesCharset name) ∧ f.isFileList = true := by
  have hvalid := validate_eq_ok_iff.mp h
  have hknows := hvalid.knowsCharsets he
  obtain ⟨htable, hstandard⟩ := of_engine he
  rw [← hvalid.missesCharset_iff htable]
  refine ⟨fun source answer? hrequest => ?_, fun bytes => ?_, fun s => ?_⟩
  · exact Engine.lacksCharset_exportFrom_iff hstandard hknows hrequest id memo name
  · exact Engine.lacksCharset_importBytes_iff hstandard hknows bytes f id memo name
  · exact Engine.lacksCharset_importStream_iff hstandard hknows s f id memo name

/-- A host without files. -/
def bareHost : Host := { files := { nodes := [], current := [] }, environment := .ofList [] }

/-- One list of file URIs, in a charset that is not known. -/
def inUnknownCharset : Config :=
  { default with
    formats :=
      [{ id := .uriList, name := "text/uri-list; charset=x-unknown", kind := .uriList,
         localeDependent := false, flavors := [Flavor.fileList.toString], text := none }] }

theorem validate_inUnknownCharset : inUnknownCharset.validate = .ok () := by decide +kernel

theorem missesCharset_inUnknownCharset :
    ∃ entry ∈ inUnknownCharset.formats, entry.id = .uriList ∧ entry.MissesCharset "x-unknown" :=
  ⟨_, List.mem_singleton.mpr rfl, rfl, by decide +kernel⟩

/-- Files are not written to the list, and anything but files is read from it. -/
theorem lacksCharset_iff_uriList :
    inUnknownCharset.validate = .ok () ∧
      ∃ engine, inUnknownCharset.engine bareHost = .ok engine ∧
        (engine.exportFrom
            { flavors := [Flavor.fileList], data := fun _ => .ok (some (.fileList ["/a"])),
              permission := none }
            Flavor.fileList .uriList).LacksCharset .empty "x-unknown" ∧
        ∀ bytes, ¬(engine.importBytes bytes Flavor.string .uriList none).LacksCharset .empty
          "x-unknown" := by
  have hvalid := validate_inUnknownCharset
  obtain ⟨engine, hengine⟩ := (validate_eq_ok_iff.mp hvalid).exists_engine bareHost
  have hfiles := lacksCharset_iff hvalid hengine .uriList Flavor.fileList .empty "x-unknown"
  have htext := lacksCharset_iff hvalid hengine .uriList Flavor.string .empty "x-unknown"
  refine ⟨hvalid, engine, hengine, ?_, fun bytes hlacks => ?_⟩
  · exact (hfiles.1 _ _ rfl).mpr ⟨missesCharset_inUnknownCharset, _, _, rfl, rfl, rfl, rfl⟩
  · exact absurd ((htext.2.1 bytes).mp hlacks).2 (by decide)

/-- A configuration that passes its validation has a format that no files can be read from. -/
theorem importBytes_lacksCharset_of_validate :
    inUnknownCharset.validate = .ok () ∧
      ∃ engine, inUnknownCharset.engine bareHost = .ok engine ∧
        ((engine.importBytes [] Flavor.fileList .uriList none).run .empty).1
          = .error (.error (.encodingUnsupported "x-unknown")) := by
  have hvalid := validate_eq_ok_iff.mp validate_inUnknownCharset
  obtain ⟨engine, hengine⟩ := hvalid.exists_engine bareHost
  obtain ⟨htable, hstandard⟩ := of_engine hengine
  have hmiss := (hvalid.missesCharset_iff htable _ _).mpr missesCharset_inUnknownCharset
  refine ⟨validate_inUnknownCharset, engine, hengine, ?_⟩
  have hknows := hvalid.knowsCharsets hengine
  exact (Engine.lacksCharset_importBytes_iff hstandard hknows [] _ _ _ _).mpr ⟨hmiss, by decide⟩

end Config

end Clipboard
