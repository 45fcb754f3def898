import Clipboard.Proofs.FormatTable

/-!
# The life of a table

A table is changed in five ways (`Change`), and a registration that is refused changes nothing. What
holds after any changes (`after_spec`): the names and the formats stand for one another, no list of
mappings has anything twice, and to register a format again takes away its mappings, in both
relations, and nothing else. The two relations are converse to one another as long as mappings are
added in both only.

`of_register` says all that a registration can do; the invariants are derived from it.
-/

namespace Clipboard.FormatTable

variable {t t' : FormatTable} {native : NativeFormat} {id : FormatId} {f : Flavor}

/-! ## Registering -/

theorem find?_place (native : NativeFormat) (ns : List NativeFormat) (id : FormatId) :
    (place native ns).find? (fun n => n.id = id)
      = if id = native.id then some native else ns.find? (fun n => n.id = id) := by
  have hcons (ns : List NativeFormat) : (native :: ns).find? (fun n => n.id = id)
      = if id = native.id then some native else ns.find? (fun n => n.id = id) := by
    rw [List.find?_cons]
    by_cases hid : id = native.id
    · simp [hid]
    · have hid' : ¬native.id = id := fun h => hid h.symm
      simp [hid, hid']
  induction ns with
  | nil => exact hcons []
  | cons n ns ih =>
    rw [place]
    split
    · exact hcons (n :: ns)
    · split
      · next hn =>
        -- the format stands where the one with its number stood
        rw [hcons]
        by_cases hid : id = native.id
        · rw [if_pos hid, if_pos hid]
        · have hne : ¬n.id = id := fun h => hid (h.symm.trans hn.symm)
          rw [if_neg hid, if_neg hid, List.find?_cons_of_neg (by simpa using hne)]
      · next hn =>
        by_cases hid : n.id = id
        · have hid' : ¬id = native.id := fun h => hn (h.symm.trans hid.symm)
          rw [if_neg hid', List.find?_cons_of_pos (by simpa using hid),
            List.find?_cons_of_pos (by simpa using hid)]
        · rw [List.find?_cons_of_neg (by simpa using hid),
            List.find?_cons_of_neg (by simpa using hid), ih]

/-- The formats under other numbers keep their order. -/
theorem filter_place (native : NativeFormat) (ns : List NativeFormat) :
    (place native ns).filter (fun n => n.id ≠ native.id) = ns.filter (fun n => n.id ≠ native.id) := by
  induction ns with
  | nil => simp [place]
  | cons n ns ih =>
    rw [place]
    split
    · simp
    · split
      · next hn => simp [hn]
      · rw [List.filter_cons, List.filter_cons, ih]

/-- A registration is refused only because the name belongs to another format. -/
theorem register_eq_error_iff {fault : Error} :
    t.register native = .error fault ↔ ∃ owner, t.formatForName? native.name = some owner ∧
      owner ≠ native.id ∧ fault = .invalidData (.nameTaken native.name owner) := by
  constructor
  · intro h
    unfold register at h
    split at h
    · next owner howner =>
      obtain ⟨hname, hne⟩ := Option.filter_eq_some_iff.mp howner
      cases h
      exact ⟨owner, hname, by simpa using hne, rfl⟩
    · cases h
  · rintro ⟨owner, hname, hne, rfl⟩
    have howner : (t.formatForName? native.name).filter (· ≠ native.id) = some owner := by
      simp [hname, hne]
    simp only [register, howner]

/-- All that a registration can do. -/
theorem of_register (h : t.register native = .ok t') :
    (∀ owner, t.formatForName? native.name = some owner → owner = native.id) ∧
    ((t.native? native.id = none ∧
        t' = { t with
          natives := place native t.natives
          names := t.names.insert native.name native.id }) ∨
      ∃ old, t.native? native.id = some old ∧
        t' = { t.eraseMappings native.id with
          natives := place native t.natives
          names := Dictionary.insert native.name native.id (t.names.erase old.name) }) := by
  have hfree : ∀ owner, t.formatForName? native.name = some owner → owner = native.id := by
    intro owner howner
    by_cases hid : owner = native.id
    · exact hid
    · have herror := register_eq_error_iff.mpr ⟨owner, howner, hid, rfl⟩
      rw [herror] at h
      cases h
  refine ⟨hfree, ?_⟩
  unfold register at h
  split at h
  · cases h
  · cases hold : t.native? native.id with
    | none =>
      simp only [hold, Except.ok.injEq] at h
      exact Or.inl ⟨rfl, h.symm⟩
    | some old =>
      simp only [hold, Except.ok.injEq] at h
      exact Or.inr ⟨old, rfl, h.symm⟩

theorem natives_of_register (h : t.register native = .ok t') :
    t'.natives = place native t.natives := by
  rcases (of_register h).2 with ⟨-, rfl⟩ | ⟨old, -, rfl⟩ <;> rfl

theorem native?_of_register (h : t.register native = .ok t') (id : FormatId) :
    t'.native? id = if id = native.id then some native else t.native? id := by
  rw [native?, natives_of_register h]
  exact find?_place native t.natives id

/-- The names after a registration: the format's own, and those before without the one it had. -/
theorem formatForName?_of_register (h : t.register native = .ok t') {name : String}
    (hname : name ≠ native.name) :
    t'.formatForName? name = if (t.native? native.id).map NativeFormat.name = some name then none
      else t.formatForName? name := by
  rcases (of_register h).2 with ⟨hold, rfl⟩ | ⟨old, hold, rfl⟩
  · simp only [formatForName?, Dictionary.find?_insert_of_ne _ _ hname, hold, Option.map_none]
    rfl
  · simp only [formatForName?, Dictionary.find?_insert_of_ne _ _ hname, hold, Option.map_some,
      Option.some.injEq]
    by_cases he : old.name = name
    · rw [if_pos he, he, Dictionary.find?_erase_self]
    · rw [if_neg he, Dictionary.find?_erase_of_ne _ (fun hn => he hn.symm)]

theorem formatForName?_self_of_register (h : t.register native = .ok t') :
    t'.formatForName? native.name = some native.id := by
  rcases (of_register h).2 with ⟨-, rfl⟩ | ⟨old, -, rfl⟩
  · exact Dictionary.find?_insert_self _ _ _
  · exact Dictionary.find?_insert_self _ _ _

/-! ## Invariants -/

/-- A name leads to a number exactly if the format under the number has the name. -/
def NamesMatch (t : FormatTable) : Prop :=
  ∀ name id, t.formatForName? name = some id ↔ ∃ n, t.native? id = some n ∧ n.name = name

theorem NamesMatch.register (hmatch : t.NamesMatch) (h : t.register native = .ok t') :
    t'.NamesMatch := by
  have hfree := (of_register h).1
  intro name id
  rw [native?_of_register h]
  by_cases hname : name = native.name
  · subst hname
    rw [formatForName?_self_of_register h, Option.some.injEq]
    by_cases hid : id = native.id
    · simp [hid]
    · -- the name of a format under another number would have been refused
      refine iff_of_false (fun he => hid he.symm) ?_
      rw [if_neg hid]
      rintro hother
      exact hid (hfree id ((hmatch _ _).mpr hother))
  · rw [formatForName?_of_register h hname]
    by_cases hid : id = native.id
    · have hname' : ¬native.name = name := fun he => hname he.symm
      rw [if_pos hid]
      simp only [Option.some.injEq, exists_eq_left', hname', iff_false]
      split
      · exact fun he => by cases he
      · next hold =>
        intro he
        exact hold (Option.map_eq_some_iff.mpr (hid ▸ (hmatch name id).mp he))
    · rw [if_neg hid, ← hmatch name id]
      split
      · next hold =>
        -- the name leads to the number registered now, and so to no other
        have hlead := (hmatch name native.id).mpr (Option.map_eq_some_iff.mp hold)
        rw [hlead, Option.some.injEq]
        exact iff_of_false (fun he => by cases he) (fun he => hid he.symm)
      · exact Iff.rfl

theorem Reachable.namesMatch (h : Reachable t) : t.NamesMatch := by
  induction h with
  | empty =>
    intro name id
    simp [formatForName?, native?, FormatTable.empty, Dictionary.find?]
  | register _ hregister ih => exact ih.register hregister
  | addFormatForFlavor _ _ _ ih => exact ih
  | addFlavorForFormat _ _ _ ih => exact ih

theorem Reachable.keyed (h : Reachable t) : t.formatsOf.Keyed ∧ t.flavorsOf.Keyed := by
  induction h with
  | empty => exact ⟨List.nodup_nil, List.nodup_nil⟩
  | register _ hregister ih =>
    rcases (of_register hregister).2 with ⟨-, rfl⟩ | ⟨old, -, rfl⟩
    · exact ih
    · exact ⟨ih.1.eraseValue _, ih.2.eraseKey _⟩
  | addFormatForFlavor f id _ ih => exact ⟨ih.1.add f id, ih.2⟩
  | addFlavorForFormat id f _ ih => exact ⟨ih.1, ih.2.add id f⟩

/-! ## The mappings -/

theorem formatsForFlavor_of_register (ht : Reachable t) (h : t.register native = .ok t')
    (f : Flavor) : t'.formatsForFlavor f = if (t.native? native.id).isSome then
      (t.formatsForFlavor f).filter (· ≠ native.id) else t.formatsForFlavor f := by
  rcases (of_register h).2 with ⟨hold, rfl⟩ | ⟨old, hold, rfl⟩
  · simp [hold, formatsForFlavor]
  · rw [hold]
    exact Preferences.get_eraseValue ht.keyed.1 native.id f

theorem flavorsForFormat_of_register (h : t.register native = .ok t') (id : FormatId) :
    t'.flavorsForFormat id = if (t.native? native.id).isSome ∧ id = native.id then []
      else t.flavorsForFormat id := by
  rcases (of_register h).2 with ⟨hold, rfl⟩ | ⟨old, hold, rfl⟩
  · simp [hold, flavorsForFormat]
  · refine (Preferences.get_eraseKey t.flavorsOf native.id id).trans ?_
    simp [hold, flavorsForFormat]

/-- The flavor leads to the format exactly if the format leads to the flavor. -/
def Mutual (t : FormatTable) : Prop :=
  ∀ f id, id ∈ t.formatsForFlavor f ↔ f ∈ t.flavorsForFormat id

theorem mutual_empty : empty.Mutual := by
  intro f id
  constructor
  · intro hid
    cases hid
  · intro hf
    cases hf

theorem Mutual.register (hmutual : t.Mutual) (ht : Reachable t) (h : t.register native = .ok t') :
    t'.Mutual := by
  intro f id
  rw [formatsForFlavor_of_register ht h, flavorsForFormat_of_register h]
  by_cases hold : (t.native? native.id).isSome = true
  · by_cases hid : id = native.id
    · simp [hold, hid]
    · simpa [hold, hid] using hmutual f id
  · simpa [hold] using hmutual f id

theorem Mutual.addMapping (hmutual : t.Mutual) (f : Flavor) (id : FormatId) :
    (t.addMapping f id).Mutual := by
  intro g other
  have hformats : other ∈ (t.addMapping f id).formatsForFlavor g ↔ _ := Preferences.mem_get_add
  have hflavors : g ∈ (t.addMapping f id).flavorsForFormat other ↔ _ := Preferences.mem_get_add
  rw [hformats, hflavors, and_comm]
  exact or_congr Iff.rfl (hmutual g other)

theorem Mutual.addMappings (hmutual : t.Mutual) (fs : List Flavor) (id : FormatId) :
    (t.addMappings fs id).Mutual := by
  induction fs generalizing t with
  | nil => exact hmutual
  | cons f fs ih => exact ih (hmutual.addMapping f id)

theorem Reachable.addMapping (h : Reachable t) (f : Flavor) (id : FormatId) :
    Reachable (t.addMapping f id) := .addFlavorForFormat id f (.addFormatForFlavor f id h)

theorem Reachable.addMappings (h : Reachable t) (fs : List Flavor) (id : FormatId) :
    Reachable (t.addMappings fs id) := by
  induction fs generalizing t with
  | nil => exact h
  | cons f fs ih => exact ih (h.addMapping f id)

/-! ## Changes one after the other -/

/-- A way to change a table. -/
inductive Change where
  | register (native : NativeFormat)
  | addMapping (f : Flavor) (id : FormatId)
  | addFormatForFlavor (f : Flavor) (id : FormatId)
  | addFlavorForFormat (id : FormatId) (f : Flavor)
  | addTextMappings (id : FormatId) (subtype : String) (charsets : List String)
  deriving DecidableEq, Repr

/-- Whether mappings are added in both relations, if any are. -/
def Change.isTwoWay : Change → Bool
  | addFormatForFlavor _ _ | addFlavorForFormat _ _ => false
  | _ => true

/-- The table after a change; it is left as it is by a registration that is refused. -/
def apply (t : FormatTable) : Change → FormatTable
  | .register native =>
    match t.register native with
    | .ok t' => t'
    | .error _ => t
  | .addMapping f id => t.addMapping f id
  | .addFormatForFlavor f id => t.addFormatForFlavor f id
  | .addFlavorForFormat id f => t.addFlavorForFormat id f
  | .addTextMappings id subtype charsets => t.addTextMappings id subtype charsets

/-- The table that changes make of the empty one. -/
def after (changes : List Change) : FormatTable := changes.foldl apply empty

theorem Reachable.apply (h : Reachable t) (change : Change) : Reachable (t.apply change) := by
  cases change with
  | register native =>
    rw [FormatTable.apply]
    split
    · next hregister => exact .register h hregister
    · exact h
  | addMapping f id => exact h.addMapping f id
  | addFormatForFlavor f id => exact .addFormatForFlavor f id h
  | addFlavorForFormat id f => exact .addFlavorForFormat id f h
  | addTextMappings id subtype charsets => exact h.addMappings _ id

theorem Mutual.apply (hmutual : t.Mutual) (ht : Reachable t) {change : Change}
    (hchange : change.isTwoWay = true) : (t.apply change).Mutual := by
  cases change with
  | register native =>
    rw [FormatTable.apply]
    split
    · next hregister => exact hmutual.register ht hregister
    · exact hmutual
  | addMapping f id => exact hmutual.addMapping f id
  | addFormatForFlavor f id => cases hchange
  | addFlavorForFormat id f => cases hchange
  | addTextMappings id subtype charsets => exact hmutual.addMappings _ id

theorem reachable_after (changes : List Change) : Reachable (after changes) :=
  List.foldlRecOn changes apply Reachable.empty (fun _ ht change _ => ht.apply change)

theorem mutual_after {changes : List Change} (h : ∀ change ∈ changes, change.isTwoWay = true) :
    (after changes).Mutual := by
  -- that both relations lose the same mappings depends on what is known of all tables
  have hboth := List.foldlRecOn changes apply (motive := fun t => Reachable t ∧ t.Mutual)
    ⟨Reachable.empty, mutual_empty⟩
    (fun _ ht change hchange => ⟨ht.1.apply change, ht.2.apply ht.1 (h change hchange)⟩)
  exact hboth.2

/-- **A table over its whole life**: names and formats stand for one another, and nothing is mapped
twice; a registration that is refused, which is for the name of another format only, changes nothing;
one that replaces a format takes away its mappings and leaves all else in its order; and the two
relations are converse as long as no mapping is added in one of them alone. -/
theorem after_spec (changes : List Change) :
    let t := after changes
    (∀ name id, t.formatForName? name = some id ↔ ∃ n, t.native? id = some n ∧ n.name = name) ∧
    (∀ f, (t.formatsForFlavor f).Nodup) ∧ (∀ id, (t.flavorsForFormat id).Nodup) ∧
    (∀ native fault, t.register native = .error fault → t.apply (.register native) = t ∧
      ∃ owner, t.formatForName? native.name = some owner ∧ owner ≠ native.id ∧
        fault = .invalidData (.nameTaken native.name owner)) ∧
    (∀ native old, t.native? native.id = some old →
      (∀ owner, t.formatForName? native.name = some owner → owner = native.id) →
      let t' := t.apply (.register native)
      t.register native = .ok t' ∧
      t'.native? native.id = some native ∧
      t'.natives.filter (fun n => n.id ≠ native.id) = t.natives.filter (fun n => n.id ≠ native.id) ∧
      (∀ name, name ≠ old.name → name ≠ native.name →
        t'.formatForName? name = t.formatForName? name) ∧
      t'.flavorsForFormat native.id = [] ∧
      (∀ id, id ≠ native.id → t'.flavorsForFormat id = t.flavorsForFormat id) ∧
      ∀ f, t'.formatsForFlavor f = (t.formatsForFlavor f).filter (· ≠ native.id)) ∧
    ((∀ change ∈ changes, change.isTwoWay = true) →
      ∀ f id, id ∈ t.formatsForFlavor f ↔ f ∈ t.flavorsForFormat id) := by
  intro t
  have ht : Reachable t := reachable_after changes
  refine ⟨ht.namesMatch, ht.nodup_formats, ht.nodup_flavors, ?_, ?_, mutual_after⟩
  · intro native fault hrefused
    exact ⟨by rw [apply, hrefused], register_eq_error_iff.mp hrefused⟩
  · intro native old hold hfree t'
    have hregister : t.register native = .ok t' := by
      cases h : t.register native with
      | ok u => simp only [t', apply, h]
      | error fault =>
        obtain ⟨owner, howner, hne, -⟩ := register_eq_error_iff.mp h
        exact absurd (hfree owner howner) hne
    refine ⟨hregister, ?_, ?_, ?_, ?_, ?_, ?_⟩
    · rw [native?_of_register hregister, if_pos rfl]
    · rw [natives_of_register hregister, filter_place]
    · intro name hold' hname
      rw [formatForName?_of_register hregister hname, hold, if_neg]
      exact fun he => hold' (Option.some.inj he).symm
    · rw [flavorsForFormat_of_register hregister, hold, if_pos ⟨rfl, rfl⟩]
    · intro id hid
      rw [flavorsForFormat_of_register hregister, if_neg (fun h => hid h.2)]
    · intro f
      rw [formatsForFlavor_of_register ht hregister, hold]
      rfl

/-- A format is registered again under another name: what was mapped to it is gone, and the other
format of the flavor stays. -/
theorem after_spec_renamed :
    let html := Flavor.ofParts "text" "html" [] .string
    let format (name : String) (number : Nat) : NativeFormat :=
      { id := ⟨number⟩, name, kind := .plain, localeDependent := false, text := none }
    let t := after [.register (format "A" 1), .register (format "B" 2), .addMapping html ⟨1⟩,
      .addFormatForFlavor html ⟨2⟩]
    let t' := t.apply (.register (format "C" 1))
    t.native? ⟨1⟩ = some (format "A" 1) ∧ t.formatsForFlavor html = [⟨1⟩, ⟨2⟩] ∧
      t'.formatsForFlavor html = [⟨2⟩] ∧ t'.flavorsForFormat ⟨1⟩ = [] ∧
      t.apply (.register (format "A" 2)) = t := by
  intro html format t t'
  have hold : t.native? ⟨1⟩ = some (format "A" 1) := by decide +kernel
  have hformats : t.formatsForFlavor html = [⟨1⟩, ⟨2⟩] := by decide +kernel
  have howner : t.formatForName? "A" = some ⟨1⟩ := by decide +kernel
  have hrefused : t.register (format "A" 2) = .error (.invalidData (.nameTaken "A" ⟨1⟩)) :=
    register_eq_error_iff.mpr ⟨⟨1⟩, howner, by decide, rfl⟩
  have hfree : t.formatForName? "C" = none := by decide +kernel
  obtain ⟨-, -, -, herror, hreplace, -⟩ := after_spec [.register (format "A" 1),
    .register (format "B" 2), .addMapping html ⟨1⟩, .addFormatForFlavor html ⟨2⟩]
  obtain ⟨-, -, -, -, hflavors, -, hleft⟩ := hreplace (format "C" 1) (format "A" 1) hold
    (fun owner howner => absurd (hfree.symm.trans howner) (Option.some_ne_none owner).symm)
  refine ⟨hold, hformats, ?_, hflavors, (herror _ _ hrefused).1⟩
  rw [hleft html, hformats]
  decide

end Clipboard.FormatTable
