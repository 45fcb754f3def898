import Clipboard.Negotiation
import Mathlib.Data.List.Nodup

/-!
# Bindings of formats

Bindings in which no format is bound twice (`Functional`) are maps: what a format is bound to does not
depend on their order (`get?_of_perm`), and to be bound is to be among them (`mem_iff`). `extend` is
described by `get?_extend`.
-/

namespace Clipboard.Negotiation.Bindings

variable {α : Type} {b others : Bindings α} {id : FormatId} {a : α}

/-- No format is bound twice. -/
def Functional (b : Bindings α) : Prop := (b.map Prod.fst).Nodup

theorem get?_cons (p : FormatId × α) (b : Bindings α) (id : FormatId) :
    get? (p :: b) id = if id = p.1 then some p.2 else get? b id := by
  obtain ⟨k, a⟩ := p
  by_cases h : id = k
  · simp [get?, h]
  · have hne : (id == k) = false := by simpa using h
    simp [get?, List.lookup_cons, h, hne]

theorem get?_eq_none_iff : get? b id = none ↔ id ∉ b.map Prod.fst := by
  induction b with
  | nil => simp [get?]
  | cons p b ih =>
    rw [get?_cons, List.map_cons, List.mem_cons, not_or, ← ih]
    split
    · next h => simp [h]
    · next h => simp [h]

/-- To be bound is to be among the bindings. -/
theorem mem_iff (h : b.Functional) : (id, a) ∈ b ↔ get? b id = some a := by
  induction b with
  | nil => simp [get?]
  | cons p b ih =>
    obtain ⟨k, x⟩ := p
    obtain ⟨hk, hb⟩ := List.nodup_cons.mp h
    rw [get?_cons, List.mem_cons, Prod.mk.injEq]
    by_cases hid : id = k
    · subst hid
      have hnot : (id, a) ∉ b := fun hmem => hk (List.mem_map.mpr ⟨_, hmem, rfl⟩)
      simp [hnot, eq_comm]
    · simp [hid, ih hb]

/-- The order of the bindings does not matter. -/
theorem get?_of_perm {b' : Bindings α} (h : b.Functional) (hp : b'.Perm b) (id : FormatId) :
    get? b' id = get? b id := by
  have h' : b'.Functional := (hp.map Prod.fst).nodup_iff.mpr h
  cases hget : get? b id with
  | some a => exact (mem_iff h').mp (hp.mem_iff.mpr ((mem_iff h).mpr hget))
  | none =>
    rw [get?_eq_none_iff] at hget ⊢
    exact fun hmem => hget ((hp.map Prod.fst).mem_iff.mp hmem)

/-- Maps that bind alike are the same up to order. -/
theorem perm_of_get? {b' : Bindings α} (h : b.Functional) (h' : b'.Functional)
    (hget : ∀ id, get? b id = get? b' id) : b.Perm b' := by
  refine (List.perm_ext_iff_of_nodup (List.Nodup.of_map _ h) (List.Nodup.of_map _ h')).mpr ?_
  rintro ⟨id, a⟩
  rw [mem_iff h, mem_iff h', hget]

/-! ## Binding formats -/

theorem get?_filter_of_ne {k : FormatId} (h : id ≠ k) :
    get? (b.filter (fun p => p.1 ≠ k)) id = get? b id := by
  induction b with
  | nil => rfl
  | cons p b ih =>
    rw [List.filter_cons]
    split
    · rw [get?_cons, get?_cons, ih]
    · next hp =>
      have hpk : p.1 = k := by simpa using hp
      rw [get?_cons, if_neg (fun he => h (he.trans hpk)), ih]

theorem get?_insert (b : Bindings α) (k : FormatId) (a : α) (id : FormatId) :
    get? (b.insert k a) id = if id = k then some a else get? b id := by
  rw [insert, get?_cons]
  split
  · rfl
  · next h => rw [get?_filter_of_ne h]

theorem Functional.insert (h : b.Functional) (k : FormatId) (a : α) :
    (b.insert k a).Functional := by
  refine List.nodup_cons.mpr ⟨?_, h.sublist (List.filter_sublist.map Prod.fst)⟩
  intro hmem
  obtain ⟨p, hp, hpk⟩ := List.mem_map.mp hmem
  have hne : p.1 ≠ k := by simpa using (List.mem_filter.mp hp).2
  exact hne hpk

theorem extend_cons (b : Bindings α) (p : FormatId × α) (others : Bindings α) :
    b.extend (p :: others) = (b.insert p.1 p.2).extend others := rfl

/-- The others come first. -/
theorem get?_extend (h : others.Functional) (b : Bindings α) (id : FormatId) :
    get? (b.extend others) id = (get? others id).or (get? b id) := by
  induction others generalizing b with
  | nil => rfl
  | cons p others ih =>
    obtain ⟨hp, hothers⟩ := List.nodup_cons.mp h
    rw [extend_cons, ih hothers, get?_insert, get?_cons]
    by_cases hid : id = p.1
    · have hnone : get? others id = none := get?_eq_none_iff.mpr (hid ▸ hp)
      rw [hnone, if_pos hid, if_pos hid]
      rfl
    · rw [if_neg hid, if_neg hid]

/-- What is bound does not depend on the order in which the others are gone through. -/
theorem get?_extend_of_perm {others' : Bindings α} (h : others.Functional)
    (hp : others'.Perm others) (b : Bindings α) (id : FormatId) :
    get? (b.extend others') id = get? (b.extend others) id := by
  have h' : others'.Functional := (hp.map Prod.fst).nodup_iff.mpr h
  rw [get?_extend h', get?_extend h, get?_of_perm h hp]

theorem Functional.extend (h : b.Functional) (others : Bindings α) :
    (b.extend others).Functional := by
  induction others generalizing b with
  | nil => exact h
  | cons p others ih => exact ih (h.insert p.1 p.2)

end Clipboard.Negotiation.Bindings
