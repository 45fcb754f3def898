import Clipboard.Proofs.Negotiation.Import
import Clipboard.Proofs.Ranking.Homogeneous

/-!
# Import negotiation

`flavorsForFormats_spec` puts together what is known of the two passes and of the offers. Afterwards
the flavors found are sorted, and by then there is nothing left to decide about them: whatever the sort
asks, it is told the same (`answers_compare_flavorSet`). So all depends on whether the comparison orders
the flavors. If it does they come back sorted, each of them once. If it does not the sort may break off.

Flavors none of which is text are ordered, and so are texts of ranked MIME types
(`run_flavorsSortedBy_homogeneous`). A string, plain text and a list of files are not if they are offered
together (`isNone_flavorsSortedBy_circle`).
-/

namespace Clipboard

namespace Negotiation

variable {t : FormatTable} {r : FlavorRanker} {f : Flavor} {id : FormatId} {ids : List FormatId}
  {memo later : SubtypeMemo} {arrange : List Flavor → List Flavor} {sorter : Sorter Flavor}
  {out : List Flavor}

/-! ## What is found -/

theorem fst_run_flavorsForFormats (t : FormatTable) (ids : List FormatId) (memo : SubtypeMemo) :
    ((flavorsForFormats t ids).run memo).1
      = origins t (offersBy t (isUsable ((flavorsForFormats t ids).run memo).2) ids) := by
  have hoffers : ((offers t ids).run memo).1
      = offersBy t (isUsable ((flavorsForFormats t ids).run memo).2) ids :=
    run_offers (SubtypeMemo.Extends.refl _)
  rw [← hoffers]
  rfl

theorem mem_flavorSet_iff :
    f ∈ ((flavorSet t ids).run memo).1
      ↔ isUsable ((flavorSet t ids).run memo).2 f = true ∧ ∃ id ∈ ids, f ∈ t.flavorsForFormat id := by
  show f ∈ (((offers t ids).run memo).1.map Prod.snd).eraseDups ↔ _
  rw [List.mem_eraseDups, run_offers (SubtypeMemo.Extends.refl _), mem_snd_offersBy]
  rfl

theorem nodup_flavorSet (t : FormatTable) (ids : List FormatId) (memo : SubtypeMemo) :
    ((flavorSet t ids).run memo).1.Nodup := nodup_eraseDups _

theorem exists_offered (harrange : ∀ fs, (arrange fs).Perm fs)
    (hf : f ∈ arrange ((flavorSet t ids).run memo).1) : ∃ id ∈ ids, f ∈ t.flavorsForFormat id :=
  (mem_flavorSet_iff.mp ((harrange _).mem_iff.mp hf)).2

/-! ## What is found, sorted -/

/-- By insertion the flavors are sorted in some way, whatever the comparison. -/
theorem run_flavorsSortedBy_insertion (t : FormatTable) (r : FlavorRanker) (ids : List FormatId)
    (memo : SubtypeMemo) :
    (flavorsSortedBy .insertion (fun fs => fs) t r ids).run memo
      = (some ((flavorsSorted t r ids).run memo).1, ((flavorsSorted t r ids).run memo).2) := rfl

section Later

variable (hlater : SubtypeMemo.Extends ((flavorSet t ids).run memo).2 later)

include hlater

theorem run_flavorsSortedBy (sorter : Sorter Flavor) (arrange : List Flavor → List Flavor)
    (r : FlavorRanker) :
    (flavorsSortedBy sorter arrange t r ids).run later
      = (sorter.run r.compare (arrange ((flavorSet t ids).run memo).1)).run later := by
  rw [flavorsSortedBy, Memoized.run_bind, (settling_flavorSet t ids).again hlater]
  rfl

/-- The flavors offered are covered by what has been decided. -/
theorem covers_of_offered (hid : id ∈ ids) (hf : f ∈ t.flavorsForFormat id) : later.Covers f := by
  refine Ranking.covers_of_snd_run_isText ?_
  -- the classifier is all that `isConvertible` asks
  exact snd_run_isConvertible_of_offers hlater hid hf

variable (harrange : ∀ fs, (arrange fs).Perm fs)

include harrange

theorem perm_flavorSet (h : ((flavorsSortedBy sorter arrange t r ids).run later).1 = some out) :
    out.Perm ((flavorSet t ids).run memo).1 := by
  rw [run_flavorsSortedBy hlater] at h
  exact (sorter.perm h).trans (harrange _)

/-- The flavors found compare as they do now. -/
theorem answers_compare_flavorSet (r : FlavorRanker) :
    Answers r.compare later (fun a b => ((r.compare a b).run later).1)
      (arrange ((flavorSet t ids).run memo).1) := by
  have hcovers (f : Flavor) (hf : f ∈ arrange ((flavorSet t ids).run memo).1) : later.Covers f := by
    obtain ⟨id, hid, hmapped⟩ := exists_offered harrange hf
    exact covers_of_offered hlater hid hmapped
  exact fun a ha b hb => r.run_compare_of_covers (hcovers a ha) (hcovers b hb)

/-- The flavors found are sorted by every sort exactly if the comparison orders them. -/
theorem isSome_flavorsSortedBy_iff :
    (∀ sorter, ((flavorsSortedBy sorter arrange t r ids).run later).1.isSome = true)
      ↔ IsOrder (fun a b => ((r.compare a b).run later).1) ((flavorSet t ids).run memo).1 := by
  simp only [run_flavorsSortedBy hlater]
  exact (Sorter.isSome_run_iff (answers_compare_flavorSet hlater harrange r)).trans
    (IsOrder.iff_of_mem_iff (fun _ => (harrange _).mem_iff))

theorem pairwise_flavorsSortedBy
    (horder : IsOrder (fun a b => ((r.compare a b).run later).1) ((flavorSet t ids).run memo).1)
    (h : ((flavorsSortedBy sorter arrange t r ids).run later).1 = some out) :
    out.Pairwise (fun a b => ((r.compare a b).run later).1.isLE = true) := by
  rw [run_flavorsSortedBy hlater] at h
  have harranged := horder.of_subset (fun f hf => (harrange _).mem_iff.mp hf)
  exact (Sorter.sortedBy_of_run (answers_compare_flavorSet hlater harrange r) harranged h).inOrder

/-- **Flavors that are homogeneous are sorted in one way**, whatever the sort. -/
theorem run_flavorsSortedBy_homogeneous
    (h : Ranking.Homogeneous later (fun f => ∃ id ∈ ids, f ∈ t.flavorsForFormat id))
    (sorter : Sorter Flavor) :
    (flavorsSortedBy sorter arrange t r ids).run later
      = (some ((r.sort (arrange ((flavorSet t ids).run memo).1)).run later).1, later) := by
  rw [run_flavorsSortedBy hlater]
  refine r.run_sortBy (fun f ⟨_, hid, hf⟩ => covers_of_offered hlater hid hf) h (fun f hf => ?_) sorter
  exact exists_offered harrange hf

end Later

/-! ## The result -/

/-- **Import negotiation**: the flavors found are those that can be converted and that some format
offered leads to; each is read from the first of its own formats that is offered and leads back to it,
or else from the last one offered that leads to it. If these flavors are sorted at any time afterwards,
from whatever order they stand in, and the sort does not break off, each of them is there once. It does
not break off, whichever it is, exactly if the comparison orders the flavors, and then they are in
order. -/
theorem flavorsForFormats_spec (t : FormatTable) (ids : List FormatId) (memo : SubtypeMemo) :
    let origins := ((flavorsForFormats t ids).run memo).1
    let decided := ((flavorsForFormats t ids).run memo).2
    let flavors := origins.map Prod.fst
    flavors.Nodup ∧
    (∀ f, f ∈ flavors ↔ isUsable decided f = true ∧ ∃ id ∈ ids, f ∈ t.flavorsForFormat id) ∧
    (∀ f ∈ flavors, origins.get? f
      = ((t.formatsForFlavor f).find? (fun id => id ∈ ids ∧ f ∈ t.flavorsForFormat id)).or
          (ids.reverse.find? (fun id => f ∈ t.flavorsForFormat id))) ∧
    ∀ (r : FlavorRanker) (arrange : List Flavor → List Flavor) (later : SubtypeMemo),
      (∀ fs, (arrange fs).Perm fs) → decided.Extends later →
      let order (a b : Flavor) : Ordering := ((r.compare a b).run later).1
      let sorted (sorter : Sorter Flavor) : Option (List Flavor) :=
        ((flavorsSortedBy sorter arrange t r ids).run later).1
      (∀ sorter out, sorted sorter = some out → out.Nodup ∧ ∀ f, f ∈ out ↔ f ∈ flavors) ∧
      ((∀ sorter, (sorted sorter).isSome = true) ↔ IsOrder order flavors) ∧
      (IsOrder order flavors → ∀ sorter out, sorted sorter = some out →
        out.Pairwise (fun a b => (order a b).isLE = true)) := by
  intro found decided flavors
  have hfound : found = origins t (offersBy t (isUsable decided) ids) :=
    fst_run_flavorsForFormats t ids memo
  have hset : ∀ f, f ∈ flavors ↔ f ∈ ((flavorSet t ids).run memo).1 := by
    intro f
    rw [show flavors = found.map Prod.fst from rfl, hfound, mem_origins_iff, mem_snd_offersBy,
      mem_flavorSet_iff]
    rfl
  have hmem : ∀ f, f ∈ flavors ↔ isUsable decided f = true ∧ ∃ id ∈ ids, f ∈ t.flavorsForFormat id :=
    fun f => (hset f).trans mem_flavorSet_iff
  refine ⟨?_, hmem, ?_, ?_⟩
  · rw [show flavors = found.map Prod.fst from rfl, hfound]
    exact nodup_foldl_rebind (Origins.nodup_ofOffers _) t _ _
  · intro f hf
    have husable := ((hmem f).mp hf).1
    rw [hfound, get?_origins, preferred?_offersBy husable, last_offersBy husable]
  · intro r arrange later harrange hlater order sorted
    have horder : IsOrder order flavors ↔ IsOrder order ((flavorSet t ids).run memo).1 :=
      IsOrder.iff_of_mem_iff hset
    refine ⟨?_, ?_, ?_⟩
    · intro sorter out hout
      have hperm := perm_flavorSet hlater harrange hout
      refine ⟨hperm.nodup_iff.mpr (nodup_flavorSet t ids memo), fun f => ?_⟩
      rw [hperm.mem_iff, hset]
    · exact (isSome_flavorsSortedBy_iff hlater harrange).trans horder.symm
    · intro hflavors sorter out hout
      exact pairwise_flavorsSortedBy hlater harrange (horder.mp hflavors) hout

/-- The format that HTML prefers does not lead back to it, so that it is read from the next one; the
string is not mapped to any, so that it is read from the last one. The two are in order. -/
theorem flavorsForFormats_spec_one_way :
    let html := Flavor.ofParts "text" "html" [] .string
    let t := ((((FormatTable.empty.addFormatForFlavor html ⟨3⟩).addMapping html ⟨1⟩).addMapping html
      ⟨2⟩).addFlavorForFormat ⟨1⟩ Flavor.string).addFlavorForFormat ⟨2⟩ Flavor.string
    let ids : List FormatId := [⟨1⟩, ⟨2⟩, ⟨3⟩, ⟨9⟩]
    let result := (flavorsForFormats t ids).run .empty
    html ∈ result.1.map Prod.fst ∧ Origins.get? result.1 html = some ⟨1⟩ ∧
      Flavor.string ∈ result.1.map Prod.fst ∧ Origins.get? result.1 Flavor.string = some ⟨2⟩ ∧
      ∀ sorter, ∃ out,
        ((flavorsSortedBy sorter List.reverse t ⟨⟨"UTF-8"⟩, "UTF-8", .best⟩ ids).run result.2).1
          = some out ∧ html ∈ out := by
  intro html t ids result
  obtain ⟨-, hflavors, horigins, hsorted⟩ := flavorsForFormats_spec t ids .empty
  have hhtml := (hflavors html).mpr
    ⟨by decide +kernel, ⟨1⟩, by decide +kernel, by decide +kernel⟩
  have hstring := (hflavors Flavor.string).mpr
    ⟨by decide +kernel, ⟨1⟩, by decide +kernel, by decide +kernel⟩
  obtain ⟨hmem, hsome, -⟩ := hsorted ⟨⟨"UTF-8"⟩, "UTF-8", .best⟩ List.reverse result.2
    List.reverse_perm (.refl _)
  refine ⟨hhtml, ?_, hstring, ?_, fun sorter => ?_⟩
  · rw [horigins html hhtml]
    decide +kernel
  · rw [horigins Flavor.string hstring]
    decide +kernel
  · obtain ⟨out, hout⟩ := Option.isSome_iff_exists.mp (hsome.mpr (by decide +kernel) sorter)
    exact ⟨out, hout, ((hmem sorter out hout).2 html).mpr hhtml⟩

/-- A string comes before a list of files, that before plain text, which comes before the string, so
that a sort may break off. -/
theorem isNone_flavorsSortedBy_circle :
    let plain := Flavor.ofParts "text" "plain" [] .string
    let t := ((FormatTable.empty.addMapping Flavor.string .unicodeText).addTextMappings .unicodeText
      "plain" ["UTF-8", "UTF-16", "ISO-8859-1", "US-ASCII"]).addMapping Flavor.fileList .dropFiles
    let ids : List FormatId := [.unicodeText, .dropFiles]
    let r : FlavorRanker := ⟨⟨"UTF-8"⟩, "UTF-8", .best⟩
    let result := (flavorsForFormats t ids).run .empty
    let flavors := result.1.map Prod.fst
    let order (a b : Flavor) : Ordering := ((r.compare a b).run result.2).1
    flavors.length = 21 ∧
    (Flavor.string ∈ flavors ∧ Flavor.fileList ∈ flavors ∧ plain ∈ flavors) ∧
    (order Flavor.string Flavor.fileList = .lt ∧ order Flavor.fileList plain = .lt ∧
      order plain Flavor.string = .lt) ∧
    ∃ sorter : Sorter Flavor, ((flavorsSortedBy sorter (fun fs => fs) t r ids).run result.2).1 = none := by
  intro plain t ids r result flavors order
  refine ⟨by decide +kernel, by decide +kernel, by decide +kernel, .strict, by decide +kernel⟩

end Negotiation

end Clipboard
