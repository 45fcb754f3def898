import Clipboard.Config.Validation
import Clipboard.Config.Windows
import Clipboard.Proofs.Config.Table
import Clipboard.Proofs.Negotiation.Import
import Clipboard.Proofs.Transfer.Supported

/-!
# What is negotiated can be converted

Negotiation asks of a flavor alone whether it can be converted, and goes by the table for the rest.
Whether it can be converted to and from the format that it is mapped to depends on the kind of the
format, and on whether that is one of text (`FormatTable.accepts`, `FormatTable.yields`): where they
go together, no conversion fails for there being none (`negotiated_supported`).

They do if the entries of the configuration list only what suits them (`Config.suitable_table`): what
is mapped besides is characters and bytes, and suits a format of text.
-/

namespace Clipboard

open FormatTable (Reachable)

/-! ## What suits a format -/

namespace FormatKind

/-- Whether a flavor can be converted to and from a format of the kind, which may be one of text; an
array of characters is taken for charset text. -/
def suits (kind : FormatKind) (isText : Bool) (f : Flavor) : Bool :=
  kind.accepts isText f (f.representation = .charArray)
    && kind.yields isText f (f.representation = .charArray)

variable {kind : FormatKind} {isText charsetText : Bool} {f : Flavor}

theorem accepts_of_suits (h : kind.suits isText f = true)
    (hchars : f.representation = .charArray → charsetText = true) :
    kind.accepts isText f charsetText = true := by
  have haccepts := (Bool.and_eq_true_iff.mp h).1
  rw [accepts] at haccepts ⊢
  cases hrep : f.representation with
  | charArray =>
    rw [hrep] at haccepts
    rw [hchars hrep]
    exact haccepts
  | string =>
    rw [hrep] at haccepts
    have hplain : (!kind.isOfFiles) = true := haccepts
    dsimp only
    rw [hplain, Bool.or_true]
  | byteArray | byteBuffer => rfl
  | image | reader | charBuffer | fileList | stream | serializable | remote =>
    rw [hrep] at haccepts
    exact haccepts

theorem yields_of_suits (h : kind.suits isText f = true)
    (hchars : f.representation = .charArray → charsetText = true) :
    kind.yields isText f charsetText = true := by
  have hyields := (Bool.and_eq_true_iff.mp h).2
  rw [yields] at hyields ⊢
  split
  · next hkind =>
    rw [if_pos hkind] at hyields
    exact hyields
  · next hkind =>
    rw [if_neg hkind] at hyields
    cases hrep : f.representation with
    | charArray =>
      rw [hrep] at hyields
      rw [hchars hrep]
      exact hyields
    | image | reader | charBuffer =>
      rw [hrep] at hyields
      exact hyields
    | string | byteArray | byteBuffer | stream | fileList | serializable | remote => rfl

/-- Characters and bytes suit a format of text, unless it is one of files. -/
theorem suits_of_isOfText (hkind : kind.isOfFiles = false) (hf : f.representation.isOfText = true) :
    kind.suits true f = true := by
  have hfiles : kind ≠ .fileList := by
    rintro rfl
    cases hkind
  rw [suits, accepts, yields, if_neg hfiles]
  cases hrep : f.representation with
  | charArray | string | charBuffer | reader | byteArray | byteBuffer | stream =>
    simp [hkind]
  | fileList | image | serializable | remote =>
    rw [hrep] at hf
    cases hf

end FormatKind

/-! ## Suitable configurations -/

/-- Whether the flavors that are listed suit the format, and a format of files is none of text. -/
def FormatEntry.isSuitable (e : FormatEntry) : Bool :=
  (!e.kind.isOfFiles || e.text.isNone) &&
    e.flavors.all (fun text => ((Flavor.parse? text).map (e.kind.suits e.text.isSome)).getD true)

def Config.isSuitable (c : Config) : Bool := c.formats.all FormatEntry.isSuitable

namespace FormatTable

variable {t t' : FormatTable} {native : NativeFormat} {id : FormatId} {f : Flavor}

/-- What is mapped to a format suits it. -/
def Suitable (t : FormatTable) : Prop :=
  ∀ f, ∀ id ∈ t.formatsForFlavor f, ∃ native, t.native? id = some native ∧
    native.kind.suits native.isText f = true

theorem kindOf_of_native? (h : t.native? id = some native) : t.kindOf id = native.kind := by
  rw [kindOf, kind?, h]
  rfl

theorem isText_of_native? (h : t.native? id = some native) : t.isText id = native.isText := by
  rw [isText, textProperties?, h]
  rfl

theorem Suitable.register (h : t.Suitable) (ht : t.Reachable) (hregister : t.register native = .ok t') :
    t'.Suitable := by
  intro f id hid
  rw [formatsForFlavor_of_register ht hregister] at hid
  have hold : id ∈ t.formatsForFlavor f ∧ id ≠ native.id := by
    split at hid
    · have hmem := List.mem_filter.mp hid
      exact ⟨hmem.1, of_decide_eq_true hmem.2⟩
    · next hnone =>
      -- nothing is mapped to a number that no format has
      refine ⟨hid, ?_⟩
      rintro rfl
      obtain ⟨old, hregistered, -⟩ := h f _ hid
      exact hnone (by rw [hregistered]; rfl)
  obtain ⟨old, hregistered, hsuits⟩ := h f id hold.1
  refine ⟨old, ?_, hsuits⟩
  rw [native?_of_register hregister, if_neg hold.2, hregistered]

theorem Suitable.addMappings {fs : List Flavor} (h : t.Suitable)
    (hregistered : t.native? id = some native)
    (hfs : ∀ f ∈ fs, native.kind.suits native.isText f = true) : (t.addMappings fs id).Suitable := by
  intro f other hother
  rw [native?_addMappings]
  rcases mem_formatsForFlavor_addMappings.mp hother with ⟨hf, rfl⟩ | hmem
  · exact ⟨native, hregistered, hfs f hf⟩
  · exact h f other hmem

end FormatTable

namespace Config

variable {c : Config} {e : FormatEntry} {t : FormatTable} {f g : Flavor}

theorem suits_of_standsFor (he : e.isSuitable = true) (hf : e.Lists f) (hg : StandsFor e g f) :
    e.kind.suits e.text.isSome g = true := by
  obtain ⟨hkind, hlisted⟩ := Bool.and_eq_true_iff.mp he
  rcases hg with rfl | ⟨htext, hof⟩
  · obtain ⟨text, hmem, hparse⟩ := hf
    have hsuits := List.all_eq_true.mp hlisted text hmem
    rwa [hparse] at hsuits
  · rw [htext]
    refine FormatKind.suits_of_isOfText ?_ hof
    cases hentry : e.text with
    | none =>
      rw [hentry] at htext
      cases htext
    | some entry =>
      rw [hentry] at hkind
      simpa using hkind

/-- **What is mapped suits its format**, if that holds of what is listed. -/
theorem suitable_table (hc : c.isSuitable = true) (h : c.table = .ok t) : t.Suitable := by
  refine (table_induction (P := fun t => Reachable t ∧ t.Suitable) ?_ ?_ h).2
  · refine ⟨.empty, ?_⟩
    intro f id hid
    cases hid
  · intro e he t t' memo memo' ht hadd
    obtain ⟨native, between, gs, hdescribes, hregister, rfl, hstands⟩ := of_addEntry hadd
    have hbetween : between.Reachable := .register ht.1 hregister
    refine ⟨hbetween.addMappings gs e.id, ?_⟩
    have hregistered : between.native? e.id = some native := by
      rw [FormatTable.native?_of_register hregister, if_pos hdescribes.id.symm]
    refine (ht.2.register ht.1 hregister).addMappings hregistered ?_
    intro g hg
    obtain ⟨f, hf, hstand⟩ := hstands g hg
    rw [hdescribes.kind, hdescribes.isText_eq]
    exact suits_of_standsFor (List.all_eq_true.mp hc e he) hf hstand

theorem of_engine {host : Host} {engine : Engine} (h : c.engine host = .ok engine) :
    c.table = .ok engine.table ∧ engine.IsStandard := by
  rw [Config.engine] at h
  split at h
  · cases h
  · next t htable =>
    cases h
    exact ⟨htable, rfl, rfl, rfl⟩

end Config

namespace Negotiation

variable {t : FormatTable} {f : Flavor} {id : FormatId} {fs : List Flavor} {ids : List FormatId}
  {memo later : SubtypeMemo}

/-! ## What is known of a pair -/

/-- Whether a flavor is charset text, going by decisions that have been made. -/
def isCharsetTextBy (memo : SubtypeMemo) (f : Flavor) : Bool :=
  ((TextClassifier.isCharsetText f).run memo).1

/-- Readers and buffers of characters are only converted if they are charset text. -/
theorem isCharsetTextBy_of_isUsable (h : isUsable memo f = true)
    (hrep : f.representation = .reader ∨ f.representation = .charBuffer) :
    isCharsetTextBy memo f = true := by
  have hother : f.isFileList = false ∧ f.isImage = false ∧ f.representation.isSerializable = false ∧
      f.representation ≠ .stream ∧ f.representation ≠ .remote ∧
      f.representation.isEncodedText = false := by
    rcases hrep with hrep | hrep <;>
      simp [Flavor.isFileList, Flavor.isImage, hrep, Representation.isSerializable,
        Representation.isEncodedText]
  obtain ⟨hfiles, himage, hserial, hstream, hremote, hencoded⟩ := hother
  refine TextClassifier.isCharsetText_of_isText ?_ hencoded
  simpa [isUsable, isConvertible, hfiles, himage, hserial, hstream, hremote] using h

/-- A pair that has been negotiated for export is one of the table, and the flavor can be converted. -/
theorem of_mem_formatsForFlavors (ht : t.Reachable) {p : Candidate}
    (hp : p ∈ ((formatsForFlavors t fs).run memo).1)
    (hlater : ((formatsForFlavors t fs).run memo).2.Extends later) :
    isUsable later p.flavor = true ∧ p.format ∈ t.formatsForFlavor p.flavor := by
  -- asked again later, about no less than is known then, the flavors are the same
  have hagain := (settling_formatsForFlavors t fs).again hlater
  have hentered := entered_enterAll ht (usable t fs later)
  rw [← run_tally_reverse] at hentered
  have hmem : p ∈ ((tally t fs.reverse Tally.empty).run later).1.ranked := by
    have heq : ((formatsForFlavors t fs).run memo).1 = ((formatsForFlavors t fs).run later).1 := by
      rw [hagain]
    rw [heq] at hp
    exact hp
  obtain ⟨husable, hmapped⟩ := of_choice (hentered.of_mem_ranked hmem).1
  have hlast : ((formatsForFlavors t fs).run later).2 = later := by rw [hagain]
  rw [usable, hlast] at husable
  exact ⟨(List.mem_filter.mp husable).2, hmapped⟩

theorem mem_of_get?_origins {os : List (FormatId × Flavor)} (h : (origins t os).get? f = some id) :
    (id, f) ∈ os := by
  rw [get?_origins] at h
  rcases Option.or_eq_some_iff.mp h with hpreferred | ⟨-, hlast⟩
  · exact (offered_of_preferred? hpreferred).2
  · obtain ⟨⟨id', g⟩, hoffer, rfl⟩ := Option.map_eq_some_iff.mp hlast
    have hg : g = f := by simpa using List.find?_some hoffer
    subst hg
    exact List.mem_reverse.mp (List.mem_of_find?_eq_some hoffer)

/-- A pair that has been negotiated for import is one of the table, and the flavor can be converted. -/
theorem of_get?_flavorsForFormats (h : ((flavorsForFormats t ids).run memo).1.get? f = some id)
    (hlater : ((flavorsForFormats t ids).run memo).2.Extends later) :
    isUsable later f = true ∧ f ∈ t.flavorsForFormat id := by
  have hoffer : (id, f) ∈ offersBy t (isUsable later) ids := by
    rw [← run_offers hlater]
    exact mem_of_get?_origins h
  obtain ⟨-, hmapped, husable⟩ := mem_offersBy.mp hoffer
  exact ⟨husable, hmapped⟩

/-! ## What has been negotiated -/

/-- Export negotiation has come to make the format from the flavor, by the time of these decisions. -/
def HasExport (t : FormatTable) (later : SubtypeMemo) (f : Flavor) (id : FormatId) : Prop :=
  ∃ fs memo, (∃ p ∈ ((formatsForFlavors t fs).run memo).1, p.flavor = f ∧ p.format = id) ∧
    ((formatsForFlavors t fs).run memo).2.Extends later

/-- Import negotiation has come to read the flavor from the format, by the time of these decisions. -/
def HasImport (t : FormatTable) (later : SubtypeMemo) (f : Flavor) (id : FormatId) : Prop :=
  ∃ ids memo, ((flavorsForFormats t ids).run memo).1.get? f = some id ∧
    ((flavorsForFormats t ids).run memo).2.Extends later

theorem HasExport.usable_and_mem (ht : t.Reachable) (h : HasExport t later f id) :
    isUsable later f = true ∧ id ∈ t.formatsForFlavor f := by
  obtain ⟨fs, memo, ⟨p, hp, rfl, rfl⟩, hlater⟩ := h
  exact of_mem_formatsForFlavors ht hp hlater

theorem HasImport.usable_and_mem (h : HasImport t later f id) :
    isUsable later f = true ∧ f ∈ t.flavorsForFormat id := by
  obtain ⟨ids, memo, hget, hlater⟩ := h
  exact of_get?_flavorsForFormats hget hlater

/-- A flavor that can be converted is exported to each of its formats, if it is offered alone. -/
theorem hasExport_of_mem (ht : t.Reachable) (hf : (isConvertible f).run later = (true, later))
    (hid : id ∈ t.formatsForFlavor f) : HasExport t later f id := by
  have hrun : (formatsForFlavors t [f]).run later
      = (((tally t [f].reverse Tally.empty).run later).1.ranked, later) := by
    simp [formatsForFlavors, tally, hf]
  have husable : usable t [f] later = [f] := by
    rw [usable, hrun]
    simp [isUsable, hf]
  have hentered := entered_enterAll ht (usable t [f] later)
  rw [← run_tally_reverse, husable] at hentered
  obtain ⟨p, hp, hformat⟩ := List.mem_map.mp
    (hentered.mem_formats_iff.mpr ⟨f, List.mem_singleton_self f, hid⟩)
  have hflavor := List.mem_singleton.mp (of_choice (hentered.of_mem_ranked hp).1).1
  refine ⟨[f], later, ⟨p, ?_, hflavor, hformat⟩, ?_⟩
  · rw [hrun]
    exact hp
  · rw [hrun]
    exact SubtypeMemo.Extends.refl later

theorem accepts_of_suitable (ht : t.Suitable) (hid : id ∈ t.formatsForFlavor f)
    {charsetText : Bool} (hchars : f.representation = .charArray → charsetText = true) :
    t.accepts id f charsetText = true := by
  obtain ⟨native, hnative, hsuits⟩ := ht f id hid
  rw [FormatTable.accepts, FormatTable.kindOf_of_native? hnative,
    FormatTable.isText_of_native? hnative]
  exact FormatKind.accepts_of_suits hsuits hchars

theorem yields_of_suitable (ht : t.Suitable) (hid : id ∈ t.formatsForFlavor f)
    {charsetText : Bool} (hchars : f.representation = .charArray → charsetText = true) :
    t.yields id f charsetText = true := by
  obtain ⟨native, hnative, hsuits⟩ := ht f id hid
  rw [FormatTable.yields, FormatTable.kindOf_of_native? hnative,
    FormatTable.isText_of_native? hnative]
  exact FormatKind.yields_of_suits hsuits hchars

/-! ## A format for images -/

/-- A configuration that maps images to one format of some kind. -/
def imagesTo (kind : FormatKind) : Config :=
  { Config.default with formats := [Config.binaryEntry .dib "CF_DIB" kind [Flavor.image]] }

/-- The table that it describes. -/
def imageTable (kind : FormatKind) : FormatTable :=
  { natives := [{ id := .dib, name := "CF_DIB", kind, localeDependent := false, text := none }]
    formatsOf := [(Flavor.image, [.dib])]
    flavorsOf := [(.dib, [Flavor.image])] }

/-- The engine that is built of it. -/
def imageEngine (kind : FormatKind) (host : Host) : Engine :=
  (Engine.new host (imageTable kind) (imagesTo kind).defaultCharset).withCacheProperties
    (imagesTo kind).properties

theorem table_imagesTo (kind : FormatKind) : (imagesTo kind).table = .ok (imageTable kind) := rfl

theorem engine_imagesTo (kind : FormatKind) (host : Host) :
    (imagesTo kind).engine host = .ok (imageEngine kind host) := by
  rw [Config.engine, table_imagesTo]
  rfl

/-- Images are negotiated whatever the kind of the format. -/
theorem hasExport_imageTable (kind : FormatKind) :
    HasExport (imageTable kind) .empty Flavor.image .dib :=
  hasExport_of_mem (Config.reachable_table (table_imagesTo kind)) (by decide +kernel)
    (List.mem_singleton_self _)

theorem hasImport_imageTable (kind : FormatKind) :
    HasImport (imageTable kind) .empty Flavor.image .dib := by
  refine ⟨[.dib], .empty, ?_, ?_⟩
  · cases kind <;> decide +kernel
  · have hmemo : ((flavorsForFormats (imageTable kind) [.dib]).run .empty).2 = .empty := by
      cases kind <;> decide +kernel
    rw [hmemo]
    exact SubtypeMemo.Extends.refl _

/-! ## The result -/

/-- **What has been negotiated can be converted**, where the format takes and yields the flavor, and
cannot where it does not. All pairs are of the former kind if the configuration lists only what suits
the formats, as the built-in one does. Arrays of characters that are no charset text are left out. -/
theorem negotiated_supported {c : Config} {host : Host} {e : Engine} (he : c.engine host = .ok e)
    {later : SubtypeMemo} {f : Flavor}
    (hchars : f.representation = .charArray → isCharsetTextBy later f = true) (id : FormatId) :
    let charsetText := isCharsetTextBy later f
    (HasExport e.table later f id → ∀ source v, source.data f = .ok (some v) →
      v.representation = f.representation →
      (e.table.accepts id f charsetText = true → (e.exportFrom source f id).SupportedAt later) ∧
      (e.table.accepts id f charsetText = false →
        ∀ bytes, ((e.exportFrom source f id).run later).1 ≠ .ok (some bytes))) ∧
    (HasImport e.table later f id → ∀ bytes locale?,
      (e.table.yields id f charsetText = true → Engine.NamesCharset locale? →
        (e.importBytes bytes f id locale?).SupportedAt later) ∧
      (e.table.yields id f charsetText = false →
        ∀ v?, ((e.importBytes bytes f id locale?).run later).1 ≠ .ok v?)) ∧
    (c.isSuitable = true →
      (HasExport e.table later f id → e.table.accepts id f charsetText = true) ∧
      (HasImport e.table later f id → e.table.yields id f charsetText = true)) ∧
    Config.windows.isSuitable = true := by
  intro charsetText
  obtain ⟨htable, hstandard⟩ := Config.of_engine he
  have hreachable := Config.reachable_table htable
  refine ⟨?_, ?_, ?_, by decide +kernel⟩
  · intro hnegotiated source v hdata hrep
    have husable := (hnegotiated.usable_and_mem hreachable).1
    refine ⟨fun haccepts => ?_, fun hrefuses bytes hbytes => ?_⟩
    · exact Engine.supportedAt_exportFrom hstandard hdata hrep
        (isCharsetTextBy_of_isUsable husable) haccepts
    · have haccepts := Engine.accepts_of_run_exportFrom hdata hrep (Prod.ext hbytes rfl)
      exact Bool.false_ne_true (hrefuses.symm.trans haccepts)
  · intro hnegotiated bytes locale?
    have husable := hnegotiated.usable_and_mem.1
    refine ⟨fun hyields hlocale => ?_, fun hrefuses v? hv => ?_⟩
    · exact Engine.supportedAt_importBytes hstandard hlocale
        (isCharsetTextBy_of_isUsable husable) hyields bytes
    · have hyields := Engine.yields_of_run_importBytes (Prod.ext hv rfl)
      exact Bool.false_ne_true (hrefuses.symm.trans hyields)
  · intro hc
    have hsuitable := Config.suitable_table hc htable
    refine ⟨fun hnegotiated => ?_, fun hnegotiated => ?_⟩
    · have hid := (hnegotiated.usable_and_mem hreachable).2
      exact accepts_of_suitable hsuitable hid hchars
    · -- both relations of the table are the same, so the flavor leads to the format as well
      have hid := (Config.mutual_table htable f id).mpr hnegotiated.usable_and_mem.2
      exact yields_of_suitable hsuitable hid hchars

/-- Images go to a format of images, and come from it. -/
theorem negotiated_supported_images :
    let e := imageEngine .image { files := { nodes := [], current := [] }, environment := .ofList [] }
    (imagesTo .image).engine e.host = .ok e ∧
      (∀ source image, source.data Flavor.image = .ok (some (.image image)) →
        (e.exportFrom source Flavor.image .dib).SupportedAt .empty) ∧
      ∀ bytes, (e.importBytes bytes Flavor.image .dib none).SupportedAt .empty := by
  intro e
  have he : (imagesTo .image).engine e.host = .ok e := engine_imagesTo .image e.host
  have hexport : HasExport e.table .empty Flavor.image .dib := hasExport_imageTable .image
  have himport : HasImport e.table .empty Flavor.image .dib := hasImport_imageTable .image
  have hchars : Flavor.image.representation = .charArray →
      isCharsetTextBy .empty Flavor.image = true := nofun
  obtain ⟨hexports, himports, hsuitable, -⟩ := negotiated_supported he hchars .dib
  obtain ⟨haccepts, hyields⟩ := hsuitable (by decide +kernel)
  refine ⟨he, ?_, ?_⟩
  · intro source image hdata
    exact (hexports hexport source _ hdata rfl).1 (haccepts hexport)
  · intro bytes
    exact (himports himport bytes none).1 (hyields himport) nofun

/-- An image that is mapped to a plain format is negotiated and cannot be converted. -/
theorem negotiated_unsupported_plain :
    let e := imageEngine .plain { files := { nodes := [], current := [] }, environment := .ofList [] }
    let source : Source :=
      { flavors := [Flavor.image], data := fun _ => .ok (some (.image ⟨0, 0, []⟩)),
        permission := none }
    (imagesTo .plain).validate = .ok () ∧ (imagesTo .plain).engine e.host = .ok e ∧
      HasExport e.table .empty Flavor.image .dib ∧
      ((e.exportFrom source Flavor.image .dib).run .empty).1
        = .error (.error (.unsupportedConversion .notAnImageFormat)) := by
  intro e source
  exact ⟨rfl, engine_imagesTo .plain e.host, hasExport_imageTable .plain, rfl⟩

end Negotiation

end Clipboard
