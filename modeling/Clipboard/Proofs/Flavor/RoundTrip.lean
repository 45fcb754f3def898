import Clipboard.Proofs.Flavor
import Clipboard.Proofs.Flavor.ClassMark
import Mathlib.Algebra.Order.BigOperators.Group.List
import Mathlib.Algebra.Order.Group.Nat

/-!
# Flavors read back

The text of a flavor lists the parameters in the order of their names, and the class behind them. It is
read back as the flavor exactly if every parameter can be written (`parse?_toString_iff`): if the
cutting at semicolons leaves the parameter whole and its value comes out of the quotes as it went in.

That it must be so is seen by counting. The text holds one mark of the class more than the parameters,
and reading loses none, so the class is read (`ReadsBack.exists_class`). Then the semicolons that were
written are all accounted for: no section is blank, and no parameter is replaced by another one of its
name (`ReadsBack.none_replaced`). So each value that is read holds as many semicolons as the one that
was written, and section by section the cuts are where the parameters end (`ReadsBack.isWritable`).
-/

namespace Clipboard.Flavor

open MimeType (IsParamName IsWritable ReadsAs sections listing weight)

/-! ## Writing -/

/-- The parameter that names the representation. -/
def classOf (f : Flavor) : String × String := (classParam, f.representation.name)

theorem toList_toString (f : Flavor) :
    f.toString.toList = f.mime.base.toList ++ ';' :: listing f.mime.params f.classOf := by
  have hshow : MimeType.showValue f.representation.name = f.representation.name :=
    MimeType.showValue_of_isName (isName_representation f.representation)
  have hlisting : ∀ ps : List (String × String),
      ps.flatMap (String.toList ∘ MimeType.showParam)
          ++ ("; " ++ classParam ++ "=" ++ f.representation.name).toList
        = ';' :: listing ps f.classOf := by
    intro ps
    induction ps with
    | nil => simp [listing, MimeType.written, classOf, hshow]
    | cons p ps ih =>
      rw [List.flatMap_cons, List.append_assoc, ih]
      simp [listing, MimeType.written, MimeType.showParam]
  rw [← hlisting]
  unfold toString MimeType.toString
  simp [String.toList_join, List.flatMap_map, Function.comp_def]

theorem isParamName_classParam : IsParamName classParam :=
  ⟨by decide, by decide, by decide⟩

theorem isWritable_classOf (f : Flavor) : IsWritable f.classOf :=
  MimeType.isWritable_of_not_mem (by decide : MimeType.isToken classParam.toList = true)
    (MimeType.not_mem_of_isToken (isName_representation f.representation).2 (by decide))
    (MimeType.not_mem_of_isToken (isName_representation f.representation).2 (by decide))

/-! ## Reading what is written -/

/-- The sections of the flavor's text are read as they must be to make the flavor again. -/
structure ReadsBack (f : Flavor) (os : List (Option (String × String))) : Prop where
  reads : List.Forall₂ ReadsAs (sections (listing f.mime.params f.classOf)) os
  representation_eq : ((Dictionary.ofList (os.filterMap id)).find? classParam).elim (some .stream)
    Representation.ofName? = some f.representation
  params_eq : ((Dictionary.ofList (os.filterMap id)).erase classParam).mapValues canonicalValue
    = f.mime.params

theorem parse?_toString_eq_some_iff {f : Flavor} (h : f.IsKept) :
    parse? f.toString = some f ↔ ∃ os, ReadsBack f os := by
  have hmime : ∀ m, MimeType.parse? f.toString = some m ↔
      ∃ os, List.Forall₂ ReadsAs (sections (listing f.mime.params f.classOf)) os ∧
        m = { f.mime with params := Dictionary.ofList (os.filterMap id) } := by
    intro m
    unfold MimeType.parse?
    rw [toList_toString, MimeType.ofChars?_base_eq_some_iff h.mime]
  rw [parse?_eq_some_iff]
  constructor
  · rintro ⟨m, rep, hm, hrep, heq⟩
    obtain ⟨os, hreads, rfl⟩ := (hmime m).mp hm
    refine ⟨os, hreads, ?_, ?_⟩
    · rw [heq]
      exact hrep
    · exact (congrArg (fun g => g.mime.params) heq).symm
  · rintro ⟨os, hreads, hrep, hparams⟩
    refine ⟨_, f.representation, (hmime _).mpr ⟨os, hreads, rfl⟩, hrep, ?_⟩
    unfold make
    rw [hparams]

section IsKept

variable {f : Flavor} (h : f.IsKept)
include h

theorem IsKept.nodup_names : ((f.mime.params ++ [f.classOf]).map Prod.fst).Nodup := by
  rw [List.map_append, List.nodup_append]
  refine ⟨h.mime.sorted.nodup_names, List.pairwise_singleton _ _, ?_⟩
  intro name hname other hother
  obtain ⟨p, hp, rfl⟩ := List.mem_map.mp hname
  rw [List.mem_singleton.mp hother]
  exact h.no_class p hp

/-- The parameters are made again of what is listed. -/
theorem IsKept.mapValues_erase_ofList :
    ((Dictionary.ofList (f.mime.params ++ [f.classOf])).erase classParam).mapValues canonicalValue
      = f.mime.params := by
  apply (((Dictionary.sorted_ofList _).erase _).mapValues _).ext h.mime.sorted
  intro name
  rw [Dictionary.find?_mapValues]
  by_cases hname : name = classParam
  · rw [hname, Dictionary.find?_erase_self, Dictionary.find?_eq_none h.no_class]
    rfl
  · have hfind : Dictionary.find? (Dictionary.ofList (f.mime.params ++ [f.classOf])) name
        = Dictionary.find? f.mime.params name := by
      apply Option.ext
      intro value
      rw [Dictionary.find?_ofList_eq_some_iff h.nodup_names, h.mime.sorted.find?_eq_some_iff]
      simp [classOf, hname]
    rw [Dictionary.find?_erase_of_ne _ hname, hfind]
    cases hvalue : Dictionary.find? f.mime.params name with
    | none => rfl
    | some value => rw [Option.map_some, h.canonical _ (Dictionary.mem_of_find? hvalue)]

/-- If all parameters can be written, they are read as they are. -/
theorem IsKept.readsBack (hwritable : ∀ p ∈ f.mime.params, IsWritable p) :
    ReadsBack f ((f.mime.params ++ [f.classOf]).map some) := by
  have hread : (((f.mime.params ++ [f.classOf]).map some).filterMap id)
      = f.mime.params ++ [f.classOf] := by simp
  refine ⟨?_, ?_, ?_⟩
  · apply MimeType.reads_listing
    intro p hp
    rcases List.mem_append.mp hp with hp | hp
    · exact ⟨h.mime.names p hp, hwritable p hp⟩
    · rw [List.mem_singleton.mp hp]
      exact ⟨isParamName_classParam, isWritable_classOf f⟩
  · have hmem : (classParam, f.representation.name) ∈ f.mime.params ++ [f.classOf] :=
      List.mem_append_right _ (List.mem_singleton.mpr rfl)
    rw [hread, Dictionary.find?_ofList_of_mem h.nodup_names hmem, Option.elim_some,
      Representation.ofName?_name]
  · rw [hread]
    exact h.mapValues_erase_ofList

end IsKept

/-! ## Only what can be written is read back -/

theorem marks_le_canonicalValue (p : String × String) :
    marks p ≤ marks (p.1, canonicalValue p.1 p.2) := by
  rcases canonicalValue_cases p.1 p.2 with heq | ⟨cs, hname, heq⟩
  · exact Nat.le_of_eq (by rw [heq])
  · rw [marks, Text.occurrences_eq_zero (by decide) (not_mem_of_ofName? hname)]
    exact Nat.le_add_right _ _

/-- The name of a representation holds no semicolon. -/
theorem weight_classOf (f : Flavor) : weight f.classOf = 1 := by
  have hname : ';' ∉ f.representation.name.toList :=
    MimeType.not_mem_of_isToken (isName_representation f.representation).2 (by decide)
  have hclass : classParam.toList.count ';' = 0 := by decide
  rw [weight, classOf, hclass, List.count_eq_zero.mpr hname]

theorem marks_eq_zero {p : String × String} (h : weight p ≤ 1) : marks p = 0 := by
  unfold weight at h
  have hname : ';' ∉ p.1.toList ++ ['='] := by
    have hcount : p.1.toList.count ';' = 0 := by omega
    simpa using List.count_eq_zero.mp hcount
  have hvalue : ';' ∉ p.2.toList := by
    rw [← List.count_eq_zero]
    omega
  rw [marks, Text.occurrences_eq_zero (by decide) hname, Text.occurrences_eq_zero (by decide) hvalue]

theorem sum_weight_mapValues (d : Dictionary String) :
    ((d.mapValues canonicalValue).map weight).sum = (d.map weight).sum := by
  rw [Dictionary.mapValues, List.map_map]
  exact congrArg List.sum (List.map_congr_left (fun p _ => weight_canonicalValue p))

theorem sum_marks_le_mapValues (d : Dictionary String) :
    (d.map marks).sum ≤ ((d.mapValues canonicalValue).map marks).sum := by
  rw [Dictionary.mapValues, List.map_map]
  exact List.sum_le_sum (fun p _ => marks_le_canonicalValue p)

section Necessity

variable {f : Flavor} {os : List (Option (String × String))}

/-- The semicolons that are written are those of the parameters that count, of the parameters that are
replaced by later ones of their names, and of the blank sections. -/
theorem ReadsBack.exists_replaced (h : ReadsBack f os) : ∃ replaced,
    (os.filterMap id).Perm (Dictionary.ofList (os.filterMap id) ++ replaced) ∧
      ((Dictionary.ofList (os.filterMap id)).map weight).sum + (replaced.map weight).sum
        + os.count none = (f.mime.params.map weight).sum + 1 := by
  obtain ⟨replaced, hperm⟩ := Dictionary.exists_replaced_ofList (os.filterMap id)
  refine ⟨replaced, hperm, ?_⟩
  have hread := MimeType.sum_weight_of_reads h.reads
  rw [MimeType.count_listing, (hperm.map weight).sum_nat, List.map_append, List.sum_append,
    List.map_append, List.sum_append] at hread
  rw [hread]
  simp [weight_classOf]

/-- The class is read. -/
theorem ReadsBack.exists_class (h : ReadsBack f os) :
    ∃ value, (Dictionary.ofList (os.filterMap id)).find? classParam = some value := by
  cases hfind : (Dictionary.ofList (os.filterMap id)).find? classParam with
  | some value => exact ⟨value, rfl⟩
  | none =>
    exfalso
    have hne := Dictionary.find?_ofList_eq_none_iff.mp hfind
    have herase : (Dictionary.ofList (os.filterMap id)).erase classParam
        = Dictionary.ofList (os.filterMap id) := by
      apply List.filter_eq_self.mpr
      intro p hp
      simpa using hne p (Dictionary.mem_of_mem_ofList hp)
    have hparams := h.params_eq
    rw [herase] at hparams
    -- one section too many is left for a parameter that is replaced, and it holds no semicolon
    obtain ⟨replaced, hperm, hsum⟩ := h.exists_replaced
    rw [← hparams, sum_weight_mapValues] at hsum
    have hreplaced : (replaced.map marks).sum = 0 := by
      apply List.sum_eq_zero
      intro n hn
      obtain ⟨p, hp, rfl⟩ := List.mem_map.mp hn
      have hle := List.le_sum_of_mem (List.mem_map_of_mem (f := weight) hp)
      exact marks_eq_zero (by omega)
    have hmarks : ((os.filterMap id).map marks).sum ≤ (f.mime.params.map marks).sum := by
      rw [(hperm.map marks).sum_nat, List.map_append, List.sum_append, hreplaced, ← hparams]
      exact sum_marks_le_mapValues _
    obtain ⟨read, hmem⟩ := class_mem_of_reads h.reads hmarks
    exact hne (classParam, read) (List.mem_filterMap.mpr ⟨_, hmem, rfl⟩) rfl

/-- No section is blank, and no parameter is replaced by a later one of its name. -/
theorem ReadsBack.none_replaced (h : ReadsBack f os) :
    none ∉ os ∧ ∀ p, some p ∈ os → p ∈ Dictionary.ofList (os.filterMap id) := by
  obtain ⟨value, hclass⟩ := h.exists_class
  obtain ⟨replaced, hperm, hsum⟩ := h.exists_replaced
  have herase := (Dictionary.sorted_ofList (os.filterMap id)).perm_cons_erase hclass
  have hpositive : 1 ≤ weight (classParam, value) := Nat.le_add_left 1 _
  have hlength := List.length_le_sum_of_one_le (replaced.map weight) (by
    intro n hn
    obtain ⟨p, -, rfl⟩ := List.mem_map.mp hn
    exact Nat.le_add_left 1 _)
  rw [List.length_map] at hlength
  -- the class takes the semicolon that is not one of the parameters', so none is left
  rw [(herase.map weight).sum_nat, List.map_cons, List.sum_cons, ← h.params_eq,
    sum_weight_mapValues] at hsum
  have hnil : replaced = [] := List.length_eq_zero_iff.mp (by omega)
  rw [hnil, List.append_nil] at hperm
  refine ⟨List.count_eq_zero.mp (by omega), ?_⟩
  intro p hp
  exact hperm.mem_iff.mp (List.mem_filterMap.mpr ⟨_, hp, rfl⟩)

/-- A value that is read for a parameter is the parameter's, up to the name of a charset. -/
theorem ReadsBack.canonicalValue_eq (hkept : f.IsKept) (h : ReadsBack f os) {p : String × String}
    (hp : p ∈ f.mime.params) {value : String} (hread : some (p.1, value) ∈ os) :
    canonicalValue p.1 value = p.2 := by
  have hmem : (p.1, value) ∈ (Dictionary.ofList (os.filterMap id)).erase classParam :=
    List.mem_filter.mpr ⟨h.none_replaced.2 _ hread, by simpa using hkept.no_class p hp⟩
  have hcanonical : (p.1, canonicalValue p.1 value) ∈ f.mime.params := by
    rw [← h.params_eq]
    exact List.mem_map.mpr ⟨_, hmem, rfl⟩
  have hfind := hkept.mime.sorted.find?_eq_some_iff.mpr hcanonical
  rw [hkept.mime.sorted.find?_eq_some_iff.mpr hp] at hfind
  exact (Option.some.inj hfind).symm

/-- What is read back can be written. -/
theorem ReadsBack.isWritable (hkept : f.IsKept) (h : ReadsBack f os) {p : String × String}
    (hp : p ∈ f.mime.params) : IsWritable p := by
  have hcount : ∀ q ∈ f.mime.params, ∀ value, some (q.1, value) ∈ os →
      value.toList.count ';' = q.2.toList.count ';' := by
    intro q hq value hread
    rw [← h.canonicalValue_eq hkept hq hread, count_canonicalValue]
  obtain ⟨hthrough, hread⟩ := MimeType.of_reads_listing hkept.mime.names h.reads h.none_replaced.1
    hcount p hp
  refine ⟨hthrough, ?_⟩
  have hvalue := h.canonicalValue_eq hkept hp hread
  rcases canonicalValue_cases p.1 (String.ofList (MimeType.unquote (MimeType.showValue p.2).toList)) with
    heq | ⟨cs, -, heq⟩
  · have hsame := congrArg String.toList (heq.symm.trans hvalue)
    rwa [String.toList_ofList] at hsame
  · have hname : MimeType.isToken p.2.toList = true := by
      rw [← hvalue, heq]
      exact (isName_charset cs).2
    exact MimeType.unquote_showValue (MimeType.not_mem_of_isToken hname (by decide))
      (MimeType.not_mem_of_isToken hname (by decide))

end Necessity

/-- A flavor that is read is read back from its text exactly if each of its parameters can be
written. -/
theorem parse?_toString_iff {s : String} {f : Flavor} (h : parse? s = some f) :
    parse? f.toString = some f ↔ ∀ p ∈ f.mime.params, IsWritable p := by
  have hkept := isKept_of_parse? h
  rw [parse?_toString_eq_some_iff hkept]
  constructor
  · rintro ⟨os, hback⟩ p hp
    exact hback.isWritable hkept hp
  · intro hwritable
    exact ⟨_, hkept.readsBack hwritable⟩

/-- A semicolon between quotes is read back. -/
theorem parse?_toString_iff_semicolon :
    parse? "text/plain; a=\x22x;y\x22; class=string"
        = some ⟨⟨"text", "plain", [("a", "x;y")]⟩, .string⟩ ∧
      parse? (toString ⟨⟨"text", "plain", [("a", "x;y")]⟩, .string⟩)
        = some ⟨⟨"text", "plain", [("a", "x;y")]⟩, .string⟩ := by
  have hread : parse? "text/plain; a=\x22x;y\x22; class=string"
      = some ⟨⟨"text", "plain", [("a", "x;y")]⟩, .string⟩ := by decide +kernel
  refine ⟨hread, (parse?_toString_iff hread).mpr ?_⟩
  intro p hp
  rw [List.mem_singleton.mp hp]
  exact MimeType.isWritable_of_not_mem (by decide) (by decide) (by decide)

/-- A quote at the end of a value is not written so that it can be read: the class becomes a part of
the value. -/
theorem parse?_toString_ne_quote :
    parse? "text/plain; a=\x22x\\\x22\x22; class=string"
        = some ⟨⟨"text", "plain", [("a", "x\x22")]⟩, .string⟩ ∧
      parse? (toString ⟨⟨"text", "plain", [("a", "x\x22")]⟩, .string⟩)
        = some ⟨⟨"text", "plain", [("a", "\x22x\x22\x22; class=string")]⟩, .stream⟩ := by
  decide +kernel

end Clipboard.Flavor
