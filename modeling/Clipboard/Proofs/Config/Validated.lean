import Clipboard.Config.Windows
import Clipboard.Proofs.Config.Table
import Clipboard.Proofs.Config.Validation
import Mathlib.Data.List.Forall2

/-!
# The table of a configuration that makes sense

A table is made entry by entry, and what it is after some of them is said by `Tabulates`: its formats
are those of the entries, every flavor that is listed is mapped, and the formats of a flavor stand in
the order of their entries. An entry that makes sense by itself and is apart from those before is
added without a fault and keeps that (`Tabulates.addEntry`), so all entries are added
(`Tabulates.addEntries`) if the configuration passes its validation (`table_of_validate`).
-/

namespace Clipboard

/-! ## Putting in a format whose number is free -/

namespace FormatTable

variable {t t' : FormatTable} {native : NativeFormat} {id : FormatId} {f : Flavor}

theorem perm_place {ns : List NativeFormat} (h : ∀ n ∈ ns, n.id ≠ native.id) :
    (place native ns).Perm (native :: ns) := by
  induction ns with
  | nil => exact .refl _
  | cons n ns ih =>
    obtain ⟨hn, hns⟩ := List.forall_mem_cons.mp h
    rw [place]
    split
    · exact .refl _
    · rw [if_neg (fun hid => hn hid.symm)]
      exact ((ih hns).cons n).trans (.swap native n ns)

theorem sublist_formatsForFlavor_addMappings {ids : List FormatId}
    (h : (t.formatsForFlavor f).Sublist ids) (fs : List Flavor) (id : FormatId) :
    ((t.addMappings fs id).formatsForFlavor f).Sublist (ids ++ [id]) := by
  rw [formatsForFlavor_addMappings]
  split
  · exact h.append (.refl [id])
  · exact h.trans (List.sublist_append_left ids [id])

end FormatTable

/-! ## What an entry that makes sense gives -/

namespace FormatEntry

variable {e : FormatEntry}

theorem Valid.exists_native? (h : e.Valid) (defaultCharset : String) :
    ∃ native, e.native? defaultCharset = .ok native := by
  rw [native?, textProperties?]
  cases htext : e.text with
  | none => exact ⟨_, rfl⟩
  | some text =>
    dsimp only
    cases hcount : text.terminators with
    | none => exact ⟨_, rfl⟩
    | some count =>
      obtain ⟨n, hn⟩ := (h.text text htext).terminators count hcount
      rw [Option.map_some, Option.getD_some, hn]
      exact ⟨_, rfl⟩

theorem flavors?_eq (e : FormatEntry) :
    e.flavors? = e.flavors.mapM
      (fun text => (Flavor.parse? text).elim (.error (.flavor text)) Except.ok) := by
  rw [flavors?]
  congr 1
  funext text
  cases Flavor.parse? text <;> rfl

theorem Valid.exists_flavors? (h : e.Valid) :
    ∃ fs, e.flavors? = .ok fs ∧ ∀ f, e.Lists f → f ∈ fs := by
  have hall : ∀ text ∈ e.flavors, ∃ f,
      (Flavor.parse? text).elim (.error (BuildFault.flavor text)) Except.ok = .ok f := by
    intro text htext
    obtain ⟨f, hf⟩ := Option.isSome_iff_exists.mp (h.flavors text htext)
    exact ⟨f, by rw [hf]; rfl⟩
  obtain ⟨fs, hfs, hmem⟩ := exists_mapM hall
  refine ⟨fs, e.flavors?_eq.trans hfs, ?_⟩
  rintro f ⟨text, htext, hparse⟩
  exact hmem text htext f (by rw [hparse]; rfl)

end FormatEntry

/-! ## Entries one after the other -/

theorem exists_of_forall₂ {α β : Type} {R : α → β → Prop} {as : List α} {bs : List β}
    (h : List.Forall₂ R as bs) : ∀ b ∈ bs, ∃ a ∈ as, R a b := by
  induction h with
  | nil =>
    intro b hb
    cases hb
  | cons hfirst _ ih =>
    intro b hb
    rcases List.mem_cons.mp hb with rfl | hlater
    · exact ⟨_, List.mem_cons_self, hfirst⟩
    · obtain ⟨a, ha, hab⟩ := ih b hlater
      exact ⟨a, List.mem_cons_of_mem _ ha, hab⟩

namespace Config

/-- The table is the one of the entries. -/
structure Tabulates (c : Config) (es : List FormatEntry) (t : FormatTable) : Prop where
  reachable : t.Reachable
  bothWays : t.Mutual
  formats : ∃ ns, List.Forall₂ (fun e native => e.Describes c.canonicalDefault native) es ns ∧
    t.natives.Perm ns
  listed : ∀ e ∈ es, ∀ f, e.Lists f → e.id ∈ t.formatsForFlavor f
  ordered : ∀ f, (t.formatsForFlavor f).Sublist (es.map FormatEntry.id)

/-- An entry is added if it gives a format that can be registered, and flavors. -/
theorem addEntry_eq {c : Config} {t between : FormatTable} {e : FormatEntry} {native : NativeFormat}
    {fs : List Flavor} {memo : SubtypeMemo} (hnative : e.native? c.canonicalDefault = .ok native)
    (hregister : t.register native = .ok between) (hfs : e.flavors? = .ok fs) :
    c.addEntry t memo e = .ok ((c.addFlavors e between fs).run memo) := by
  simp only [addEntry, hnative, hregister, hfs, bind, Except.bind]
  rfl

namespace Tabulates

variable {c : Config} {es : List FormatEntry} {t : FormatTable} {e : FormatEntry}
  {native : NativeFormat}

theorem empty (c : Config) : c.Tabulates [] .empty where
  reachable := .empty
  bothWays := FormatTable.mutual_empty
  formats := ⟨[], .nil, .refl _⟩
  listed := fun e he => by cases he
  ordered := fun _ => .refl _

theorem exists_entry (h : c.Tabulates es t) (hnative : native ∈ t.natives) :
    ∃ e ∈ es, e.Describes c.canonicalDefault native := by
  obtain ⟨ns, hns, hperm⟩ := h.formats
  exact exists_of_forall₂ hns native (hperm.mem_iff.mp hnative)

/-- The number of an entry that is apart from the others is free. -/
theorem id_ne (h : c.Tabulates es t) (hapart : ∀ other ∈ es, other.Apart e) :
    ∀ n ∈ t.natives, n.id ≠ e.id := by
  intro n hn hid
  obtain ⟨other, hother, hdescribes⟩ := h.exists_entry hn
  exact (hapart other hother).1 (hdescribes.id.symm.trans hid)

theorem native?_eq_none (h : c.Tabulates es t) (hapart : ∀ other ∈ es, other.Apart e) :
    t.native? e.id = none := by
  rw [FormatTable.native?, List.find?_eq_none]
  intro n hn
  simpa using h.id_ne hapart n hn

/-- And so is its name. -/
theorem formatForName?_eq_none (h : c.Tabulates es t) (hapart : ∀ other ∈ es, other.Apart e) :
    t.formatForName? e.name = none := by
  cases hname : t.formatForName? e.name with
  | none => rfl
  | some id =>
    obtain ⟨n, hn, hsame⟩ := (h.reachable.namesMatch e.name id).mp hname
    obtain ⟨other, hother, hdescribes⟩ := h.exists_entry (List.mem_of_find?_eq_some hn)
    exact absurd (hdescribes.name.symm.trans hsame) (hapart other hother).2

/-- An entry that is apart from the others is registered, and no format is replaced by it. -/
theorem exists_register (h : c.Tabulates es t) (hapart : ∀ other ∈ es, other.Apart e)
    (hdescribes : e.Describes c.canonicalDefault native) :
    ∃ t', t.register native = .ok t' ∧ t'.natives.Perm (native :: t.natives) ∧
      t'.formatsOf = t.formatsOf := by
  cases hregister : t.register native with
  | error fault =>
    obtain ⟨owner, howner, -⟩ := FormatTable.register_eq_error_iff.mp hregister
    rw [hdescribes.name, h.formatForName?_eq_none hapart] at howner
    cases howner
  | ok t' =>
    refine ⟨t', rfl, ?_, ?_⟩
    · rw [FormatTable.natives_of_register hregister]
      refine FormatTable.perm_place ?_
      rw [hdescribes.id]
      exact h.id_ne hapart
    · rcases (FormatTable.of_register hregister).2 with ⟨-, rfl⟩ | ⟨old, hold, -⟩
      · rfl
      · rw [hdescribes.id, h.native?_eq_none hapart] at hold
        cases hold

/-- One more entry. -/
theorem addEntry (h : c.Tabulates es t) (hvalid : e.Valid) (hapart : ∀ other ∈ es, other.Apart e)
    (memo : SubtypeMemo) :
    ∃ t' memo', c.addEntry t memo e = .ok (t', memo') ∧ c.Tabulates (es ++ [e]) t' := by
  obtain ⟨native, hnative⟩ := hvalid.exists_native? c.canonicalDefault
  have hdescribes := FormatEntry.of_native? hnative
  obtain ⟨between, hregister, hperm, hsame⟩ := h.exists_register hapart hdescribes
  obtain ⟨fs, hfs, hlists⟩ := hvalid.exists_flavors?
  obtain ⟨gs, hgs, hmapped, -⟩ := c.addFlavors_eq e between fs memo
  have hformats (f : Flavor) : between.formatsForFlavor f = t.formatsForFlavor f := by
    rw [FormatTable.formatsForFlavor, hsame, FormatTable.formatsForFlavor]
  refine ⟨between.addMappings gs e.id, ((c.addFlavors e between fs).run memo).2, ?_, ?_⟩
  · rw [addEntry_eq hnative hregister hfs, ← hgs]
  · refine ⟨(FormatTable.Reachable.register h.reachable hregister).addMappings gs e.id,
      (h.bothWays.register h.reachable hregister).addMappings gs e.id, ?_, ?_, ?_⟩
    · obtain ⟨ns, hns, hold⟩ := h.formats
      refine ⟨ns ++ [native], List.rel_append hns (.cons hdescribes .nil), ?_⟩
      rw [FormatTable.natives_addMappings]
      exact hperm.trans ((hold.cons native).trans (List.perm_append_singleton native ns).symm)
    · intro other hother f hf
      rw [FormatTable.mem_formatsForFlavor_addMappings, hformats]
      rcases List.mem_append.mp hother with hearlier | hlast
      · exact Or.inr (h.listed other hearlier f hf)
      · obtain rfl := List.mem_singleton.mp hlast
        exact Or.inl ⟨hmapped f (hlists f hf), rfl⟩
    · intro f
      rw [List.map_append]
      refine FormatTable.sublist_formatsForFlavor_addMappings ?_ gs e.id
      rw [hformats]
      exact h.ordered f

/-- More entries, each apart from all before it. -/
theorem addEntries {more : List FormatEntry} (h : c.Tabulates es t)
    (hvalid : ∀ e ∈ more, e.Valid) (hapart : (es ++ more).Pairwise FormatEntry.Apart)
    (memo : SubtypeMemo) :
    ∃ t', c.addEntries t memo more = .ok t' ∧ c.Tabulates (es ++ more) t' := by
  induction more generalizing es t memo with
  | nil => exact ⟨t, rfl, by rwa [List.append_nil]⟩
  | cons e more ih =>
    obtain ⟨hfirst, hrest⟩ := List.forall_mem_cons.mp hvalid
    have hbefore : ∀ other ∈ es, other.Apart e := fun other hother =>
      (List.pairwise_append.mp hapart).2.2 other hother e List.mem_cons_self
    obtain ⟨t₁, memo₁, hadd, h₁⟩ := h.addEntry hfirst hbefore memo
    rw [List.append_cons] at hapart
    obtain ⟨t', hmore, h'⟩ := ih h₁ hrest hapart memo₁
    refine ⟨t', ?_, ?_⟩
    · rw [Config.addEntries, hadd]
      exact hmore
    · rwa [List.append_assoc] at h'

end Tabulates

end Config

end Clipboard
