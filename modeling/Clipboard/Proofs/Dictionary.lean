import Clipboard.Dictionary

/-!
# Dictionaries in order

A dictionary is sorted if its names ascend (`Sorted`); every operation keeps that. Sorted
dictionaries are known by what they bind (`Sorted.ext`), so the order in which different names are
bound makes no difference (`ofList_perm`). Of the pairs that were bound, those are in the dictionary
that no later one has replaced (`exists_replaced`).
-/

namespace Clipboard.Dictionary

variable {α β : Type}

/-- The names ascend. -/
def Sorted (d : Dictionary α) : Prop := d.Pairwise (fun p q => p.1 < q.1)

theorem sorted_nil : Sorted ([] : Dictionary α) := List.Pairwise.nil

theorem mem_insert {name : String} {value : α} {d : Dictionary α} {p : String × α}
    (h : p ∈ insert name value d) : p = (name, value) ∨ p ∈ d := by
  induction d with
  | nil => exact Or.inl (List.mem_singleton.mp h)
  | cons q d ih =>
    obtain ⟨n, v⟩ := q
    unfold insert at h
    split at h
    · exact (List.mem_cons.mp h)
    · split at h
      · rcases List.mem_cons.mp h with h | h
        · exact Or.inl h
        · exact Or.inr (List.mem_cons_of_mem _ h)
      · rcases List.mem_cons.mp h with h | h
        · exact Or.inr (h ▸ List.mem_cons_self)
        · rcases ih h with h | h
          · exact Or.inl h
          · exact Or.inr (List.mem_cons_of_mem _ h)

theorem Sorted.insert {d : Dictionary α} (h : Sorted d) (name : String) (value : α) :
    Sorted (insert name value d) := by
  induction d with
  | nil => exact List.pairwise_singleton _ _
  | cons q d ih =>
    obtain ⟨n, v⟩ := q
    obtain ⟨hfirst, hrest⟩ := List.pairwise_cons.mp h
    unfold Dictionary.insert
    split
    · next hlt =>
      refine List.pairwise_cons.mpr ⟨?_, h⟩
      intro p hp
      rcases List.mem_cons.mp hp with rfl | hp
      · exact hlt
      · exact String.lt_trans hlt (hfirst p hp)
    · next hlt =>
      split
      · next heq =>
        subst heq
        exact List.pairwise_cons.mpr ⟨hfirst, hrest⟩
      · next hne =>
        refine List.pairwise_cons.mpr ⟨?_, ih hrest⟩
        intro p hp
        rcases mem_insert hp with rfl | hp
        · exact Std.lt_of_le_of_ne (String.not_lt.mp hlt) (Ne.symm hne)
        · exact hfirst p hp

theorem sorted_foldl {ps : List (String × α)} {d : Dictionary α} (h : Sorted d) :
    Sorted (ps.foldl (fun d p => insert p.1 p.2 d) d) := by
  induction ps generalizing d with
  | nil => exact h
  | cons p ps ih => exact ih (h.insert p.1 p.2)

theorem sorted_ofList (ps : List (String × α)) : Sorted (ofList ps) := sorted_foldl sorted_nil

theorem Sorted.erase {d : Dictionary α} (h : Sorted d) (name : String) : Sorted (d.erase name) :=
  List.Pairwise.filter _ h

theorem Sorted.mapValues {d : Dictionary α} (h : Sorted d) (f : String → α → β) :
    Sorted (d.mapValues f) :=
  List.pairwise_map.mpr h

/-! ## What is bound -/

theorem find?_eq_none {d : Dictionary α} {name : String} (h : ∀ p ∈ d, p.1 ≠ name) :
    find? d name = none := by
  induction d with
  | nil => rfl
  | cons q d ih =>
    obtain ⟨n, v⟩ := q
    have hne : n ≠ name := h (n, v) List.mem_cons_self
    rw [find?_cons, if_neg (Ne.symm hne)]
    exact ih (fun p hp => h p (List.mem_cons_of_mem _ hp))

theorem mem_of_find? {d : Dictionary α} {name : String} {value : α} (h : find? d name = some value) :
    (name, value) ∈ d := by
  induction d with
  | nil => cases h
  | cons q d ih =>
    obtain ⟨n, v⟩ := q
    rw [find?_cons] at h
    split at h
    · next heq =>
      cases h
      rw [heq]
      exact List.mem_cons_self
    · exact List.mem_cons_of_mem _ (ih h)

/-- A sorted dictionary binds a name once. -/
theorem Sorted.find?_eq_some_iff {d : Dictionary α} (h : Sorted d) {name : String} {value : α} :
    find? d name = some value ↔ (name, value) ∈ d := by
  refine ⟨mem_of_find?, ?_⟩
  intro hmem
  induction d with
  | nil => cases hmem
  | cons q d ih =>
    obtain ⟨n, v⟩ := q
    obtain ⟨hfirst, hrest⟩ := List.pairwise_cons.mp h
    rw [find?_cons]
    rcases List.mem_cons.mp hmem with heq | hmem
    · cases heq
      rw [if_pos rfl]
    · have hlt := hfirst _ hmem
      rw [if_neg (Ne.symm (String.ne_of_lt hlt))]
      exact ih hrest hmem

theorem Sorted.nodup {d : Dictionary α} (h : Sorted d) : d.Nodup :=
  List.Pairwise.imp (fun hlt heq => String.ne_of_lt hlt (congrArg Prod.fst heq)) h

theorem Sorted.nodup_names {d : Dictionary α} (h : Sorted d) : (d.map Prod.fst).Nodup :=
  List.pairwise_map.mpr (List.Pairwise.imp (fun hlt => String.ne_of_lt hlt) h)

/-- Sorted dictionaries that bind the same are the same. -/
theorem Sorted.ext {d e : Dictionary α} (hd : Sorted d) (he : Sorted e)
    (h : ∀ name, find? d name = find? e name) : d = e := by
  have hmem : ∀ p, p ∈ d ↔ p ∈ e := by
    rintro ⟨name, value⟩
    rw [← hd.find?_eq_some_iff, ← he.find?_eq_some_iff, h name]
  have hperm := (List.perm_ext_iff_of_nodup hd.nodup he.nodup).mpr hmem
  refine List.Perm.eq_of_pairwise ?_ hd he hperm
  intro p q _ _ hlt hgt
  exact absurd hgt (String.lt_asymm hlt)

theorem find?_mapValues (f : String → α → β) (d : Dictionary α) (name : String) :
    find? (d.mapValues f) name = (find? d name).map (f name) := by
  induction d with
  | nil => rfl
  | cons q d ih =>
    obtain ⟨n, v⟩ := q
    have hcons : mapValues f ((n, v) :: d) = (n, f n v) :: mapValues f d := rfl
    rw [hcons, find?_cons, find?_cons, ih]
    split
    · next heq => rw [heq, Option.map_some]
    · rfl

/-! ## Binding several names -/

theorem find?_foldl_of_ne {ps : List (String × α)} {name : String} (h : ∀ p ∈ ps, p.1 ≠ name)
    (d : Dictionary α) : find? (ps.foldl (fun d p => insert p.1 p.2 d) d) name = find? d name := by
  induction ps generalizing d with
  | nil => rfl
  | cons p ps ih =>
    rw [List.foldl_cons, ih (fun q hq => h q (List.mem_cons_of_mem _ hq)),
      find?_insert_of_ne d p.2 (Ne.symm (h p List.mem_cons_self))]

theorem find?_foldl_of_mem {ps : List (String × α)} (h : (ps.map Prod.fst).Nodup) {name : String}
    {value : α} (hmem : (name, value) ∈ ps) (d : Dictionary α) :
    find? (ps.foldl (fun d p => insert p.1 p.2 d) d) name = some value := by
  induction ps generalizing d with
  | nil => cases hmem
  | cons p ps ih =>
    obtain ⟨hfirst, hrest⟩ := List.nodup_cons.mp h
    rw [List.foldl_cons]
    rcases List.mem_cons.mp hmem with rfl | hmem
    · have hne : ∀ q ∈ ps, q.1 ≠ name := by
        rintro q hq rfl
        exact hfirst (List.mem_map.mpr ⟨q, hq, rfl⟩)
      rw [find?_foldl_of_ne hne, find?_insert_self]
    · exact ih hrest hmem _

theorem find?_ofList_of_mem {ps : List (String × α)} (h : (ps.map Prod.fst).Nodup) {name : String}
    {value : α} (hmem : (name, value) ∈ ps) : find? (ofList ps) name = some value :=
  find?_foldl_of_mem h hmem []

theorem find?_foldl_eq_none_iff {ps : List (String × α)} {name : String} {d : Dictionary α} :
    find? (ps.foldl (fun d p => insert p.1 p.2 d) d) name = none ↔
      find? d name = none ∧ ∀ p ∈ ps, p.1 ≠ name := by
  induction ps generalizing d with
  | nil => simp
  | cons p ps ih =>
    rw [List.foldl_cons, ih, List.forall_mem_cons]
    by_cases hname : p.1 = name
    · simp [← hname, find?_insert_self]
    · simp [find?_insert_of_ne d p.2 (Ne.symm hname), hname]

/-- A dictionary binds the names of its pairs and no others. -/
theorem find?_ofList_eq_none_iff {ps : List (String × α)} {name : String} :
    find? (ofList ps) name = none ↔ ∀ p ∈ ps, p.1 ≠ name := by
  have hempty : find? ([] : Dictionary α) name = none := rfl
  rw [ofList, find?_foldl_eq_none_iff, hempty, eq_self, true_and]

theorem find?_ofList_eq_some_iff {ps : List (String × α)} (h : (ps.map Prod.fst).Nodup) {name : String}
    {value : α} : find? (ofList ps) name = some value ↔ (name, value) ∈ ps := by
  refine ⟨?_, find?_ofList_of_mem h⟩
  intro hfind
  by_cases hmem : ∃ other, (name, other) ∈ ps
  · obtain ⟨other, hmem⟩ := hmem
    rw [find?_ofList_of_mem h hmem] at hfind
    cases hfind
    exact hmem
  · have hne : ∀ p ∈ ps, p.1 ≠ name := by
      rintro p hp rfl
      exact hmem ⟨p.2, hp⟩
    rw [find?_ofList_eq_none_iff.mpr hne] at hfind
    cases hfind

/-- The order in which different names are bound makes no difference. -/
theorem ofList_perm {ps qs : List (String × α)} (hperm : ps.Perm qs)
    (h : (ps.map Prod.fst).Nodup) : ofList ps = ofList qs := by
  have hnodup : (qs.map Prod.fst).Nodup := (hperm.map Prod.fst).nodup_iff.mp h
  apply (sorted_ofList ps).ext (sorted_ofList qs)
  intro name
  apply Option.ext
  intro value
  rw [find?_ofList_eq_some_iff h, find?_ofList_eq_some_iff hnodup, hperm.mem_iff]

/-- A pair that is bound is in the dictionary, and the one it has replaced, if any, no longer is. -/
theorem exists_replaced_insert (name : String) (value : α) (d : Dictionary α) :
    ∃ replaced, ((name, value) :: d).Perm (insert name value d ++ replaced) := by
  induction d with
  | nil => exact ⟨[], .refl _⟩
  | cons q d ih =>
    obtain ⟨n, v⟩ := q
    unfold insert
    split
    · exact ⟨[], by rw [List.append_nil]⟩
    · split
      · refine ⟨[(n, v)], ?_⟩
        exact .cons _ (List.perm_append_singleton (n, v) d).symm
      · obtain ⟨replaced, hperm⟩ := ih
        refine ⟨replaced, ?_⟩
        exact (List.Perm.swap (n, v) (name, value) d).trans (hperm.cons (n, v))

/-- Of the pairs that were bound some are in the dictionary, and the others have been replaced. -/
theorem exists_replaced (ps : List (String × α)) (d : Dictionary α) :
    ∃ replaced, (d ++ ps).Perm (ps.foldl (fun d p => insert p.1 p.2 d) d ++ replaced) := by
  induction ps generalizing d with
  | nil => exact ⟨[], by rw [List.foldl_nil]⟩
  | cons p ps ih =>
    obtain ⟨before, hbefore⟩ := exists_replaced_insert p.1 p.2 d
    obtain ⟨after, hafter⟩ := ih (insert p.1 p.2 d)
    refine ⟨after ++ before, ?_⟩
    have hmiddle : (d ++ p :: ps).Perm ((p :: d) ++ ps) := List.perm_middle
    have hswap : ((insert p.1 p.2 d ++ before) ++ ps).Perm ((insert p.1 p.2 d ++ ps) ++ before) := by
      rw [List.append_assoc, List.append_assoc]
      exact List.perm_append_comm.append_left _
    rw [List.foldl_cons, ← List.append_assoc]
    exact hmiddle.trans ((hbefore.append_right ps).trans (hswap.trans (hafter.append_right before)))

/-- A dictionary without a name has one pair less. -/
theorem Sorted.perm_cons_erase {d : Dictionary α} (h : Sorted d) {name : String} {value : α}
    (hfind : find? d name = some value) : d.Perm ((name, value) :: d.erase name) := by
  have hnotin : (name, value) ∉ d.erase name := by
    intro hmem
    have hne := (List.mem_filter.mp hmem).2
    simp at hne
  refine (List.perm_ext_iff_of_nodup h.nodup
    (List.nodup_cons.mpr ⟨hnotin, (h.erase name).nodup⟩)).mpr ?_
  rintro ⟨n, v⟩
  rw [List.mem_cons, Dictionary.erase, List.mem_filter]
  constructor
  · intro hmem
    by_cases hn : n = name
    · subst hn
      rw [h.find?_eq_some_iff.mpr hmem] at hfind
      cases hfind
      exact Or.inl rfl
    · exact Or.inr ⟨hmem, by simpa using hn⟩
  · rintro (heq | ⟨hmem, -⟩)
    · rw [heq]
      exact mem_of_find? hfind
    · exact hmem

theorem exists_replaced_ofList (ps : List (String × α)) :
    ∃ replaced, ps.Perm (ofList ps ++ replaced) :=
  exists_replaced ps []

theorem mem_of_mem_ofList {ps : List (String × α)} {p : String × α} (h : p ∈ ofList ps) : p ∈ ps := by
  obtain ⟨replaced, hperm⟩ := exists_replaced_ofList ps
  exact hperm.mem_iff.mpr (List.mem_append_left replaced h)

end Clipboard.Dictionary
