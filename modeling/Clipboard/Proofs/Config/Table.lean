import Clipboard.Config.Table
import Clipboard.Proofs.FormatTable.Changes
import Clipboard.Proofs.Steps
import Clipboard.Proofs.Text
import Clipboard.Proofs.Text.Number

/-!
# The tables that configurations make

An entry registers one format and maps flavors to it in both relations: those that are listed, and
for a format of text some more, which are all characters or bytes (`of_addEntry`). What format it is
is said field by field: the number, the name and the kind of the entry, and of its text the charset,
the line end and the number of zero bytes (`TextEntry.Describes`). What is known of a table that has
been made of entries follows from that.
-/

namespace Clipboard

open FormatTable (Reachable Mutual)

/-! ## Mappings of several flavors -/

namespace FormatTable

variable {t : FormatTable} {id : FormatId}

theorem addMappings_cons (t : FormatTable) (f : Flavor) (fs : List Flavor) (id : FormatId) :
    t.addMappings (f :: fs) id = (t.addMapping f id).addMappings fs id := rfl

theorem addMappings_append (t : FormatTable) (fs gs : List Flavor) (id : FormatId) :
    t.addMappings (fs ++ gs) id = (t.addMappings fs id).addMappings gs id :=
  List.foldl_append

/-- Mappings leave the formats as they are. -/
theorem natives_addMappings (t : FormatTable) (fs : List Flavor) (id : FormatId) :
    (t.addMappings fs id).natives = t.natives := by
  induction fs generalizing t with
  | nil => rfl
  | cons f fs ih => exact ih (t.addMapping f id)

theorem native?_addMappings (t : FormatTable) (fs : List Flavor) (id other : FormatId) :
    (t.addMappings fs id).native? other = t.native? other := by
  rw [native?, natives_addMappings, native?]

/-- A format comes behind those that a flavor has, unless it is one of them. -/
theorem formatsForFlavor_addMappings (t : FormatTable) (fs : List Flavor) (id : FormatId)
    (f : Flavor) :
    (t.addMappings fs id).formatsForFlavor f
      = if f ∈ fs ∧ id ∉ t.formatsForFlavor f then t.formatsForFlavor f ++ [id]
        else t.formatsForFlavor f := by
  induction fs generalizing t with
  | nil => exact (if_neg (fun h => absurd h.1 List.not_mem_nil)).symm
  | cons g fs ih =>
    have hadd : (t.addMapping g id).formatsForFlavor f
        = if f = g then (if id ∈ t.formatsForFlavor g then t.formatsForFlavor g
            else t.formatsForFlavor g ++ [id]) else t.formatsForFlavor f :=
      Preferences.get_add t.formatsOf g id f
    rw [addMappings_cons, ih, hadd]
    by_cases hfg : f = g
    · subst hfg
      by_cases hid : id ∈ t.formatsForFlavor f
      · simp [hid]
      · simp [hid]
    · simp [hfg]

theorem mem_formatsForFlavor_addMappings {fs : List Flavor} {f : Flavor} {other : FormatId} :
    other ∈ (t.addMappings fs id).formatsForFlavor f ↔
      (f ∈ fs ∧ other = id) ∨ other ∈ t.formatsForFlavor f := by
  rw [formatsForFlavor_addMappings]
  split
  · next h => rw [List.mem_append, List.mem_singleton, or_comm, and_iff_right h.1]
  · next h =>
    constructor
    · exact Or.inr
    · rintro (⟨hf, rfl⟩ | hmem)
      · exact Classical.byContradiction (fun hnot => h ⟨hf, hnot⟩)
      · exact hmem

end FormatTable

/-! ## Entries -/

/-- Whether a value of the representation is characters or bytes. -/
def Representation.isOfText (rep : Representation) : Bool := rep.isDecodedText || rep.isEncodedText

namespace Flavor

variable {subtype : String} {f : Flavor}

theorem isOfText_of_mem_encodedShapes {rep : Representation} (h : rep ∈ encodedShapes) :
    rep.isOfText = true := by
  revert h
  cases rep <;> decide

theorem isOfText_of_mem_decodedShapes {rep : Representation} (h : rep ∈ decodedShapes) :
    rep.isOfText = true := by
  revert h
  cases rep <;> decide

theorem isOfText_of_mem_textFlavors {charset? : Option String}
    (h : f ∈ textFlavors subtype charset?) : f.representation.isOfText = true := by
  rcases List.mem_append.mp h with hdecoded | hencoded
  · obtain ⟨rep, hrep, rfl⟩ := List.mem_map.mp hdecoded
    exact isOfText_of_mem_decodedShapes hrep
  · obtain ⟨rep, hrep, rfl⟩ := List.mem_map.mp hencoded
    exact isOfText_of_mem_encodedShapes hrep

theorem isOfText_of_mem_encodedTextFlavors {charset : String}
    (h : f ∈ encodedTextFlavors subtype charset) : f.representation.isOfText = true := by
  obtain ⟨rep, hrep, rfl⟩ := List.mem_map.mp h
  exact isOfText_of_mem_encodedShapes hrep

end Flavor

namespace TerminatorCount

variable {count : TerminatorCount} {n : Nat}

/-- The number of zero bytes that is meant: one that is not negative, given as it is or as a text that
spells it between white space, with a sign or without. White space alone means none. -/
inductive Means : TerminatorCount → Nat → Prop where
  | count (n : Nat) : Means (.count n) n
  | blank {s : String} (h : Text.IsBlank s.toList) : Means (.text s) 0
  | text {s : String} {n : Nat} (h : Text.Spells (Text.trim s.toList) n) (hn : n < 2 ^ 63) :
      Means (.text s) n

theorem ofInt_eq_ok_iff {i : Int} : ofInt i = .ok n ↔ i = n := by
  rw [ofInt]
  split
  · next h =>
    rw [Except.ok.injEq]
    omega
  · next h => exact iff_of_false nofun (by omega)

/-- A number is made out exactly if one is meant. -/
theorem resolve_eq_ok_iff : count.resolve = .ok n ↔ count.Means n := by
  cases count with
  | count i =>
    rw [resolve, ofInt_eq_ok_iff]
    constructor
    · rintro rfl
      exact .count n
    · rintro ⟨⟩
      rfl
  | text s =>
    unfold resolve
    dsimp only
    split
    · next hempty =>
      have hnil := List.isEmpty_iff.mp hempty
      rw [Except.ok.injEq]
      constructor
      · rintro rfl
        exact .blank (Text.isBlank_of_trim_eq_nil hnil)
      · rintro (_ | _ | ⟨h, -⟩)
        · rfl
        · exact absurd hnil h.ne_nil
    · next hempty =>
      constructor
      · intro h
        split at h
        · cases h
        · next i hread =>
          obtain ⟨hspells, -, hlt⟩ := Text.signedWord?_eq_some_iff.mp hread
          obtain rfl := ofInt_eq_ok_iff.mp h
          exact .text hspells (by omega)
      · rintro (_ | hblank | ⟨hspells, hlt⟩)
        · exact absurd (List.isEmpty_iff.mpr (Text.trim_of_isBlank hblank)) hempty
        · have hread := Text.signedWord?_eq_some_iff.mpr
            ⟨hspells, Int.le_trans (by decide) (Int.natCast_nonneg n), by omega⟩
          rw [hread]
          exact ofInt_eq_ok_iff.mpr rfl

end TerminatorCount

namespace TextEntry

variable {text : TextEntry} {defaultCharset : String} {n : Nat}

/-- The properties are those that the entry gives a text: the charset that it names, which is the
default one if it names none or leaves the name empty; the line end, if there is one and it is not
that of a text anyway; and as many zero bytes as are meant, or none. -/
structure Describes (text : TextEntry) (defaultCharset : String) (props : TextProperties) : Prop where
  charset : ∀ name, text.charset = some name → name ≠ "" → props.charset = name
  noCharset : (∀ name, text.charset = some name → name = "") → props.charset = defaultCharset
  eoln : ∀ marker, props.eoln = some marker ↔
    text.eoln = some marker ∧ marker ≠ "" ∧ marker ≠ "\n"
  terminators : ∀ count, text.terminators = some count → count.Means props.terminators
  noTerminators : text.terminators = none → props.terminators = 0

/-- What is registered is what the entry gives. -/
theorem describes_register (h : (text.terminators.map TerminatorCount.resolve).getD (.ok 0) = .ok n) :
    text.Describes defaultCharset
      (TextProperties.register text.charset text.eoln n defaultCharset) where
  charset name hname hne := by
    simp [TextProperties.register, hname, Option.filter, hne]
  noCharset hempty := by
    have hnone : text.charset.filter (· ≠ "") = none :=
      Option.filter_eq_none_iff.mpr (fun name hname => by simpa using hempty name hname)
    rw [TextProperties.register, hnone, Option.getD_none]
  eoln marker := by
    rw [TextProperties.register, Option.filter_eq_some_iff, Bool.and_eq_true, decide_eq_true_eq,
      decide_eq_true_eq]
  terminators count hcount := by
    rw [hcount, Option.map_some, Option.getD_some] at h
    exact TerminatorCount.resolve_eq_ok_iff.mp h
  noTerminators hnone := by
    rw [hnone] at h
    exact (Except.ok.inj h).symm

end TextEntry

namespace FormatEntry

variable {e : FormatEntry} {fs : List Flavor} {native : NativeFormat} {defaultCharset : String}

/-- The format is the one that the entry speaks of. -/
structure Describes (e : FormatEntry) (defaultCharset : String) (native : NativeFormat) : Prop where
  id : native.id = e.id
  name : native.name = e.name
  kind : native.kind = e.kind
  localeDependent : native.localeDependent = e.localeDependent
  noText : e.text = none → native.text = none
  text : ∀ text, e.text = some text →
    ∃ props, native.text = some props ∧ text.Describes defaultCharset props

/-- The flavor is listed. -/
def Lists (e : FormatEntry) (f : Flavor) : Prop := ∃ text ∈ e.flavors, Flavor.parse? text = some f

theorem lists_of_flavors? (h : e.flavors? = .ok fs) : ∀ f ∈ fs, e.Lists f := by
  intro f hf
  obtain ⟨text, hmem, hparse⟩ := of_mem_mapM h f hf
  refine ⟨text, hmem, ?_⟩
  split at hparse
  · next g hg =>
    cases hparse
    exact hg
  · cases hparse

/-- What is registered for an entry is what it describes. -/
theorem of_native? (h : e.native? defaultCharset = .ok native) : e.Describes defaultCharset native := by
  rw [native?, textProperties?] at h
  cases htext : e.text with
  | none =>
    rw [htext] at h
    cases h
    refine ⟨rfl, rfl, rfl, rfl, fun _ => rfl, fun text hsome => ?_⟩
    rw [htext] at hsome
    cases hsome
  | some text =>
    rw [htext] at h
    dsimp only at h
    cases hcount : (text.terminators.map TerminatorCount.resolve).getD (.ok 0) with
    | error fault =>
      rw [hcount] at h
      cases h
    | ok n =>
      rw [hcount] at h
      cases h
      refine ⟨rfl, rfl, rfl, rfl, fun hnone => ?_, fun other hsome => ?_⟩
      · rw [htext] at hnone
        cases hnone
      · rw [htext] at hsome
        cases hsome
        exact ⟨_, rfl, TextEntry.describes_register hcount⟩

theorem Describes.isText_eq (h : e.Describes defaultCharset native) :
    native.isText = e.text.isSome := by
  rw [NativeFormat.isText]
  cases htext : e.text with
  | none => rw [h.noText htext]; rfl
  | some text =>
    obtain ⟨props, hnative, -⟩ := h.text text htext
    rw [hnative]
    rfl

end FormatEntry

namespace Config

variable {c : Config} {e : FormatEntry} {t t' : FormatTable} {memo memo' : SubtypeMemo}

/-- What stands for a flavor: it itself, and for a format of text flavors of text. -/
def StandsFor (e : FormatEntry) (g f : Flavor) : Prop :=
  g = f ∨ (e.text.isSome = true ∧ g.representation.isOfText = true)

theorem addExpansion_eq (c : Config) (t : FormatTable) (id : FormatId) (f : Flavor)
    (memo : SubtypeMemo) :
    ∃ gs, ((c.addExpansion t id f).run memo).1 = t.addMappings gs id ∧
      ∀ g ∈ gs, g.representation.isOfText = true := by
  obtain ⟨hs, heq, hstring⟩ : ∃ hs,
      (if f.mime.subtype = "plain" then t.addMapping Flavor.string id else t) = t.addMappings hs id ∧
      ∀ g ∈ hs, g.representation.isOfText = true := by
    split
    · exact ⟨[Flavor.string], rfl, by decide⟩
    · exact ⟨[], rfl, by decide⟩
  rw [addExpansion, heq, Memoized.run_bind, Memoized.run_pure, FormatTable.addTextMappings,
    ← FormatTable.addMappings_append]
  refine ⟨_, rfl, ?_⟩
  intro g hg
  rcases List.mem_append.mp hg with hmem | hmem
  · exact hstring g hmem
  · rcases List.mem_append.mp hmem with htext | hencoded
    · exact Flavor.isOfText_of_mem_textFlavors htext
    · obtain ⟨charset, -, hmem⟩ := List.mem_flatMap.mp hencoded
      exact Flavor.isOfText_of_mem_encodedTextFlavors hmem

theorem addFlavor_eq (c : Config) (e : FormatEntry) (t : FormatTable) (f : Flavor)
    (memo : SubtypeMemo) :
    ∃ gs, ((c.addFlavor e t f).run memo).1 = t.addMappings gs e.id ∧ f ∈ gs ∧
      ∀ g ∈ gs, StandsFor e g f := by
  have hsnoc (gs : List Flavor) :
      (t.addMappings gs e.id).addMapping f e.id = t.addMappings (gs ++ [f]) e.id :=
    (FormatTable.addMappings_append t gs [f] e.id).symm
  rw [addFlavor]
  dsimp only
  rw [Memoized.run_ite]
  split
  · next hexpands =>
    have htext : e.text.isSome = true := by
      simp only [expands, Bool.and_eq_true] at hexpands
      exact hexpands.1.2
    obtain ⟨gs, hgs, hof⟩ := c.addExpansion_eq t e.id f memo
    refine ⟨gs ++ [f], by rw [Memoized.run_bind, Memoized.run_pure, hgs, hsnoc],
      List.mem_append_right gs List.mem_cons_self, ?_⟩
    intro g hg
    rcases List.mem_append.mp hg with hmem | hmem
    · exact Or.inr ⟨htext, hof g hmem⟩
    · exact Or.inl (List.mem_singleton.mp hmem)
  · exact ⟨[f], rfl, List.mem_cons_self, fun g hg => Or.inl (List.mem_singleton.mp hg)⟩

theorem addFlavors_eq (c : Config) (e : FormatEntry) (t : FormatTable) (fs : List Flavor)
    (memo : SubtypeMemo) :
    ∃ gs, ((c.addFlavors e t fs).run memo).1 = t.addMappings gs e.id ∧ (∀ f ∈ fs, f ∈ gs) ∧
      ∀ g ∈ gs, ∃ f ∈ fs, StandsFor e g f := by
  induction fs generalizing t memo with
  | nil => exact ⟨[], rfl, fun f hf => hf, fun g hg => absurd hg List.not_mem_nil⟩
  | cons f fs ih =>
    obtain ⟨gs, hgs, hf, hfirst⟩ := c.addFlavor_eq e t f memo
    obtain ⟨hs, hhs, hfs, hrest⟩ := ih (t.addMappings gs e.id) ((c.addFlavor e t f).run memo).2
    refine ⟨gs ++ hs, ?_, ?_, ?_⟩
    · rw [addFlavors, Memoized.run_bind, hgs, hhs, FormatTable.addMappings_append]
    · exact List.forall_mem_cons.mpr
        ⟨List.mem_append_left hs hf, fun g hg => List.mem_append_right gs (hfs g hg)⟩
    · intro g hg
      rcases List.mem_append.mp hg with hmem | hmem
      · exact ⟨f, List.mem_cons_self, hfirst g hmem⟩
      · obtain ⟨f', hf', hstands⟩ := hrest g hmem
        exact ⟨f', List.mem_cons_of_mem f hf', hstands⟩

/-- All that an entry can do. -/
theorem of_addEntry (h : c.addEntry t memo e = .ok (t', memo')) :
    ∃ native between gs, e.Describes c.canonicalDefault native ∧
      t.register native = .ok between ∧ t' = between.addMappings gs e.id ∧
      ∀ g ∈ gs, ∃ f, e.Lists f ∧ StandsFor e g f := by
  rw [addEntry] at h
  obtain ⟨native, hnative, h⟩ := of_bind_eq_ok h
  cases hregister : t.register native with
  | error fault =>
    rw [hregister] at h
    cases h
  | ok between =>
    rw [hregister] at h
    obtain ⟨_, hbetween, h⟩ := of_bind_eq_ok h
    cases hbetween
    obtain ⟨fs, hfs, h⟩ := of_bind_eq_ok h
    obtain ⟨gs, hgs, -, hstands⟩ := c.addFlavors_eq e between fs memo
    have hpair : (c.addFlavors e between fs).run memo = (t', memo') := Except.ok.inj h
    rw [hpair] at hgs
    refine ⟨native, between, gs, FormatEntry.of_native? hnative, hregister, hgs, ?_⟩
    intro g hg
    obtain ⟨f, hf, hstand⟩ := hstands g hg
    exact ⟨f, FormatEntry.lists_of_flavors? hfs f hf, hstand⟩

/-! ## Tables -/

/-- What every entry keeps holds of the table that is made. -/
theorem table_induction {P : FormatTable → Prop} (hempty : P .empty)
    (hentry : ∀ e ∈ c.formats, ∀ t t' memo memo', P t → c.addEntry t memo e = .ok (t', memo') → P t')
    (h : c.table = .ok t) : P t := by
  have hall : ∀ (es : List FormatEntry) (u : FormatTable) (memo : SubtypeMemo),
      (∀ e ∈ es, e ∈ c.formats) → P u → c.addEntries u memo es = .ok t → P t := by
    intro es
    induction es with
    | nil =>
      intro u memo _ hu hdone
      cases hdone
      exact hu
    | cons e es ih =>
      intro u memo hmem hu hdone
      rw [addEntries] at hdone
      split at hdone
      · cases hdone
      · next u' memo' hadd =>
        have hu' := hentry e (hmem e List.mem_cons_self) u u' memo memo' hu hadd
        exact ih u' memo' (fun e he => hmem e (List.mem_cons_of_mem _ he)) hu' hdone
  exact hall c.formats .empty .empty (fun _ he => he) hempty h

theorem reachable_table (h : c.table = .ok t) : t.Reachable := by
  refine table_induction (P := Reachable) .empty ?_ h
  intro e _ t t' memo memo' ht hadd
  obtain ⟨native, between, gs, -, hregister, rfl, -⟩ := of_addEntry hadd
  exact Reachable.addMappings (.register ht hregister) gs e.id

theorem mutual_table (h : c.table = .ok t) : t.Mutual := by
  refine (table_induction (P := fun t => Reachable t ∧ Mutual t) ?_ ?_ h).2
  · exact ⟨.empty, FormatTable.mutual_empty⟩
  · intro e _ t t' memo memo' ht hadd
    obtain ⟨native, between, gs, -, hregister, rfl, -⟩ := of_addEntry hadd
    exact ⟨Reachable.addMappings (.register ht.1 hregister) gs e.id,
      (ht.2.register ht.1 hregister).addMappings gs e.id⟩

end Config

end Clipboard
