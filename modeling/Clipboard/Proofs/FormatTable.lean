import Clipboard.FormatTable

/-!
# Tables that can be built

A table is made from the empty one by registering formats and adding mappings (`Reachable`). In such
a table no flavor leads to a format twice and no format to a flavor (`Reachable.nodup_formats` and
`Reachable.nodup_flavors`).
-/

namespace Clipboard

namespace Preferences

variable {α β : Type}

/-- No key has a value twice. -/
def Distinct (ps : Preferences α β) : Prop := ∀ p ∈ ps, p.2.Nodup

theorem Distinct.nodup_get [DecidableEq α] {ps : Preferences α β} (h : Distinct ps) (a : α) :
    (ps.get a).Nodup := by
  induction ps with
  | nil => exact List.nodup_nil
  | cons p ps ih =>
    obtain ⟨k, bs⟩ := p
    by_cases hk : a = k
    · subst hk
      simpa [get] using h (a, bs) List.mem_cons_self
    · have hne : (a == k) = false := by simpa using hk
      have ih := ih (fun q hq => h q (List.mem_cons_of_mem _ hq))
      simpa only [get, List.lookup_cons, hne] using ih

theorem Distinct.add [DecidableEq α] [DecidableEq β] {ps : Preferences α β} (h : Distinct ps)
    (a : α) (b : β) : Distinct (Preferences.add a b ps) := by
  induction ps with
  | nil =>
    intro p hp
    rw [Preferences.add, List.mem_singleton] at hp
    rw [hp]
    exact List.nodup_cons.mpr ⟨List.not_mem_nil, List.nodup_nil⟩
  | cons p ps ih =>
    obtain ⟨k, bs⟩ := p
    have hbs : bs.Nodup := h (k, bs) List.mem_cons_self
    have hps : Distinct ps := fun q hq => h q (List.mem_cons_of_mem _ hq)
    intro q hq
    rw [Preferences.add] at hq
    split at hq
    · rcases List.mem_cons.mp hq with rfl | hq
      · dsimp only
        split
        · exact hbs
        · next hb =>
          refine List.nodup_append.mpr ⟨hbs, by simp, ?_⟩
          rintro x hx y hy rfl
          rw [List.mem_singleton] at hy
          exact hb (hy ▸ hx)
      · exact hps q hq
    · rcases List.mem_cons.mp hq with rfl | hq
      · exact hbs
      · exact ih hps q hq

theorem Distinct.eraseKey [DecidableEq α] {ps : Preferences α β} (h : Distinct ps) (a : α) :
    Distinct (ps.eraseKey a) := fun p hp => h p (List.mem_filter.mp hp).1

theorem Distinct.eraseValue [DecidableEq β] {ps : Preferences α β} (h : Distinct ps) (b : β) :
    Distinct (ps.eraseValue b) := by
  intro p hp
  obtain ⟨q, hq, rfl⟩ := List.mem_map.mp (List.mem_filter.mp hp).1
  exact (h q hq).filter _

/-! ## What the changes do to the values of a key -/

/-- No key is there twice. -/
def Keyed (ps : Preferences α β) : Prop := (ps.map Prod.fst).Nodup

variable [DecidableEq α]

theorem get_cons (p : α × List β) (ps : Preferences α β) (a : α) :
    get (p :: ps) a = if a = p.1 then p.2 else get ps a := by
  obtain ⟨k, bs⟩ := p
  by_cases h : a = k
  · simp [get, h]
  · have hne : (a == k) = false := by simpa using h
    simp [get, List.lookup_cons, h, hne]

theorem get_of_not_mem {ps : Preferences α β} {a : α} (h : a ∉ ps.map Prod.fst) :
    get ps a = [] := by
  induction ps with
  | nil => rfl
  | cons p ps ih =>
    rw [List.map_cons, List.mem_cons, not_or] at h
    rw [get_cons, if_neg h.1, ih h.2]

theorem get_eraseKey (ps : Preferences α β) (a x : α) :
    (ps.eraseKey a).get x = if x = a then [] else ps.get x := by
  induction ps with
  | nil => simp [eraseKey, get]
  | cons p ps ih =>
    rw [eraseKey, List.filter_cons]
    split
    · next hp =>
      have hpa : p.1 ≠ a := by simpa using hp
      rw [get_cons, get_cons]
      by_cases hx : x = p.1
      · rw [if_pos hx, if_pos hx, if_neg (hx ▸ hpa)]
      · rw [if_neg hx, if_neg hx]
        exact ih
    · next hp =>
      have hpa : p.1 = a := by simpa using hp
      refine ih.trans ?_
      rw [get_cons, hpa]
      by_cases hx : x = a
      · rw [if_pos hx, if_pos hx]
      · rw [if_neg hx, if_neg hx, if_neg hx]

theorem Keyed.eraseKey {ps : Preferences α β} (h : Keyed ps) (a : α) : Keyed (ps.eraseKey a) :=
  h.sublist (List.filter_sublist.map Prod.fst)

variable [DecidableEq β]

theorem get_add (ps : Preferences α β) (a : α) (b : β) (x : α) :
    (add a b ps).get x =
      if x = a then (if b ∈ ps.get a then ps.get a else ps.get a ++ [b]) else ps.get x := by
  induction ps with
  | nil =>
    have hnil : ∀ k, get ([] : Preferences α β) k = [] := fun _ => rfl
    simp [add, get_cons, hnil]
  | cons p ps ih =>
    obtain ⟨k, bs⟩ := p
    rw [add]
    split
    · next hk =>
      subst hk
      simp only [get_cons, if_true]
      split <;> rfl
    · next hk =>
      have hak : ¬a = k := fun h => hk h.symm
      simp only [get_cons, hak, if_false, ih]
      by_cases hx : x = k
      · have hxa : ¬x = a := fun h => hk (hx.symm.trans h)
        simp only [hx, if_true, if_neg hk]
      · simp only [hx, if_false]

theorem mem_get_add {ps : Preferences α β} {a x : α} {b y : β} :
    y ∈ (add a b ps).get x ↔ (x = a ∧ y = b) ∨ y ∈ ps.get x := by
  rw [get_add]
  by_cases hx : x = a
  · subst hx
    by_cases hb : b ∈ ps.get x
    · simp only [if_true, hb, true_and]
      exact ⟨Or.inr, fun h => h.elim (fun he => he ▸ hb) id⟩
    · simp only [if_true, hb, if_false, List.mem_append, List.mem_singleton, true_and]
      exact or_comm
  · simp [hx]

theorem mem_keys_add {ps : Preferences α β} {a x : α} {b : β}
    (h : x ∈ (add a b ps).map Prod.fst) : x = a ∨ x ∈ ps.map Prod.fst := by
  induction ps with
  | nil => simpa [add] using h
  | cons p ps ih =>
    rw [add] at h
    split at h
    · exact Or.inr h
    · rcases List.mem_cons.mp h with hx | hx
      · exact Or.inr (List.mem_cons.mpr (Or.inl hx))
      · exact (ih hx).imp id (List.mem_cons_of_mem _)

theorem Keyed.add {ps : Preferences α β} (h : Keyed ps) (a : α) (b : β) :
    Keyed (Preferences.add a b ps) := by
  induction ps with
  | nil => exact List.nodup_cons.mpr ⟨List.not_mem_nil, List.nodup_nil⟩
  | cons p ps ih =>
    obtain ⟨hp, hps⟩ := List.nodup_cons.mp h
    rw [Preferences.add]
    split
    · exact h
    · next hk =>
      refine List.nodup_cons.mpr ⟨fun hmem => ?_, ih hps⟩
      exact (mem_keys_add hmem).elim hk hp

omit [DecidableEq α] in
theorem Keyed.eraseValue {ps : Preferences α β} (h : Keyed ps) (b : β) : Keyed (ps.eraseValue b) := by
  have hkeys : (ps.map (fun p => (p.1, p.2.filter (· ≠ b)))).map Prod.fst = ps.map Prod.fst := by
    rw [List.map_map]
    rfl
  refine List.Nodup.sublist (List.filter_sublist.map Prod.fst) ?_
  rw [hkeys]
  exact h

/-- Every key loses the value; one that has no other goes, and so has none either way. -/
theorem get_eraseValue {ps : Preferences α β} (h : Keyed ps) (b : β) (x : α) :
    (ps.eraseValue b).get x = (ps.get x).filter (· ≠ b) := by
  induction ps with
  | nil => rfl
  | cons p ps ih =>
    obtain ⟨k, bs⟩ := p
    obtain ⟨hk, hps⟩ := List.nodup_cons.mp h
    have ih := ih hps
    rw [Preferences.eraseValue, List.map_cons, List.filter_cons, get_cons]
    split
    · rw [get_cons]
      by_cases hx : x = k
      · rw [if_pos hx, if_pos hx]
      · rw [if_neg hx, if_neg hx]
        exact ih
    · next hempty =>
      refine ih.trans ?_
      by_cases hx : x = k
      · subst hx
        rw [if_pos rfl, get_of_not_mem hk]
        simpa using hempty
      · rw [if_neg hx]

end Preferences

namespace FormatTable

/-- The tables that can be built. -/
inductive Reachable : FormatTable → Prop where
  | empty : Reachable empty
  | register {t t' : FormatTable} {native : NativeFormat} : Reachable t →
      t.register native = .ok t' → Reachable t'
  | addFormatForFlavor {t : FormatTable} (f : Flavor) (id : FormatId) : Reachable t →
      Reachable (t.addFormatForFlavor f id)
  | addFlavorForFormat {t : FormatTable} (id : FormatId) (f : Flavor) : Reachable t →
      Reachable (t.addFlavorForFormat id f)

theorem Reachable.distinct {t : FormatTable} (h : Reachable t) :
    t.formatsOf.Distinct ∧ t.flavorsOf.Distinct := by
  induction h with
  | empty => exact ⟨fun _ hp => absurd hp List.not_mem_nil, fun _ hp => absurd hp List.not_mem_nil⟩
  | register _ hregister ih =>
    unfold FormatTable.register at hregister
    split at hregister
    · cases hregister
    · cases hregister
      dsimp only
      split
      · exact ⟨ih.1.eraseValue _, ih.2.eraseKey _⟩
      · exact ih
  | addFormatForFlavor f id _ ih => exact ⟨ih.1.add f id, ih.2⟩
  | addFlavorForFormat id f _ ih => exact ⟨ih.1, ih.2.add id f⟩

/-- No format is found twice among those of a flavor. -/
theorem Reachable.nodup_formats {t : FormatTable} (h : Reachable t) (f : Flavor) :
    (t.formatsForFlavor f).Nodup := h.distinct.1.nodup_get f

/-- No flavor is found twice among those of a format. -/
theorem Reachable.nodup_flavors {t : FormatTable} (h : Reachable t) (id : FormatId) :
    (t.flavorsForFormat id).Nodup := h.distinct.2.nodup_get id

end FormatTable

end Clipboard
