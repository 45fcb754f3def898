import Clipboard.Flavor
import Clipboard.Proofs.Mime.Written

/-!
# Flavors as they are kept

A flavor that is made holds no parameter `class`, and its charset stands under the canonical name
(`isKept_make`). Putting a charset under that name changes neither the semicolons of the value nor
anything in a value that names no charset (`canonicalValue_cases`, `count_canonicalValue`).
-/

namespace Clipboard.Flavor

open MimeType (weight)

/-! ## Names -/

theorem isName_representation (rep : Representation) : MimeType.IsName rep.name.toList := by
  cases rep <;> decide

theorem isName_charset (cs : Charset) : MimeType.IsName cs.name.toList := by
  cases cs <;> decide

/-- No name of a charset holds a semicolon. -/
theorem not_mem_of_ofName? {value : String} {cs : Charset} (h : Charset.ofName? value = some cs) :
    ';' ∉ value.toList := by
  have hlabel : ∀ {label : String}, Charset.ofLabel? label = some cs → ';' ∉ label.toList := by
    intro label h
    unfold Charset.ofLabel? at h
    split at h <;> cases h <;> decide
  have hkept := hlabel h
  rw [String.toList_ofList] at hkept
  rw [← MimeType.mem_kept_iff (by decide) (by decide)]
  exact hkept

/-! ## Charsets under their canonical names -/

theorem canonicalValue_canonicalValue (name value : String) :
    canonicalValue name (canonicalValue name value) = canonicalValue name value := by
  unfold canonicalValue
  split
  · exact Charset.canonicalName_canonicalName value
  · rfl

/-- A value is replaced by the canonical name of the charset that it names, or not at all. -/
theorem canonicalValue_cases (name value : String) :
    canonicalValue name value = value ∨
      ∃ cs, Charset.ofName? value = some cs ∧ canonicalValue name value = cs.name := by
  unfold canonicalValue
  split
  · cases hname : Charset.ofName? value with
    | none =>
      left
      unfold Charset.canonicalName
      rw [hname]
    | some cs => exact Or.inr ⟨cs, rfl, Charset.canonicalName_of_ofName? hname⟩
  · exact Or.inl rfl

theorem count_canonicalValue (name value : String) :
    (canonicalValue name value).toList.count ';' = value.toList.count ';' := by
  rcases canonicalValue_cases name value with heq | ⟨cs, hname, heq⟩
  · rw [heq]
  · have hcanonical : ';' ∉ cs.name.toList :=
      MimeType.not_mem_of_isToken (isName_charset cs).2 (by decide)
    rw [heq, List.count_eq_zero.mpr hcanonical, List.count_eq_zero.mpr (not_mem_of_ofName? hname)]

theorem weight_canonicalValue (p : String × String) :
    weight (p.1, canonicalValue p.1 p.2) = weight p := by
  rw [weight, weight, count_canonicalValue]

/-! ## Flavors that are made -/

/-- The flavor is one that flavors are kept as. -/
structure IsKept (f : Flavor) : Prop where
  mime : f.mime.IsKept
  no_class : ∀ p ∈ f.mime.params, p.1 ≠ classParam
  canonical : ∀ p ∈ f.mime.params, canonicalValue p.1 p.2 = p.2

theorem isKept_make {m : MimeType} (h : m.IsKept) (rep : Representation) : (make m rep).IsKept := by
  have hmem : ∀ p ∈ (make m rep).mime.params,
      ∃ q ∈ m.params, q.1 ≠ classParam ∧ p = (q.1, canonicalValue q.1 q.2) := by
    intro p hp
    obtain ⟨q, hq, rfl⟩ := List.mem_map.mp hp
    obtain ⟨hmem, hne⟩ := List.mem_filter.mp hq
    exact ⟨q, hmem, by simpa using hne, rfl⟩
  refine ⟨⟨h.primary_kept, h.primary_isName, h.subtype_kept, h.subtype_isName,
    (h.sorted.erase classParam).mapValues canonicalValue, ?_⟩, ?_, ?_⟩
  · intro p hp
    obtain ⟨q, hq, -, rfl⟩ := hmem p hp
    exact h.names q hq
  · intro p hp
    obtain ⟨q, -, hne, rfl⟩ := hmem p hp
    exact hne
  · intro p hp
    obtain ⟨q, -, -, rfl⟩ := hmem p hp
    exact canonicalValue_canonicalValue q.1 q.2

/-- A flavor is a MIME type that is read, with the representation that the class names. -/
theorem parse?_eq_some_iff {s : String} {f : Flavor} :
    parse? s = some f ↔ ∃ m rep, MimeType.parse? s = some m ∧
      (m.param? classParam).elim (some .stream) Representation.ofName? = some rep ∧
        f = make m rep := by
  unfold parse?
  cases MimeType.parse? s with
  | none => simp
  | some m =>
    cases hclass : m.param? classParam with
    | none => simp [hclass, eq_comm]
    | some name =>
      cases hrep : Representation.ofName? name <;> simp [hclass, hrep, eq_comm]

theorem isKept_of_parse? {s : String} {f : Flavor} (h : parse? s = some f) : f.IsKept := by
  obtain ⟨m, rep, hm, -, rfl⟩ := parse?_eq_some_iff.mp h
  exact isKept_make (MimeType.isKept_of_parse? hm) rep

end Clipboard.Flavor
