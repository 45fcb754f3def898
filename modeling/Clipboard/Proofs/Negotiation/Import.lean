import Clipboard.Proofs.Negotiation.Export
import Clipboard.Proofs.Ranking
import Mathlib.Data.List.Induction

/-!
# Which flavors are imported, and from which formats

`flavorsForFormats` goes through the offers twice: first every flavor is bound to each format that
leads to it, and the last one stays; then to the format that the flavor itself prefers, if one of
those offered leads back. `get?_origins` says what comes of it, in terms of the offers; what they are
is said by `run_offers`, going by what is known of the flavors when all of them have been asked about.
-/

namespace Clipboard

namespace Negotiation

variable {t : FormatTable} {p : Flavor → Bool} {f g : Flavor} {id : FormatId} {ids : List FormatId}
  {os : List (FormatId × Flavor)}

/-! ## Binding flavors -/

namespace Origins

variable {o : Origins}

theorem get?_cons (entry : Flavor × FormatId) (o : Origins) (f : Flavor) :
    get? (entry :: o) f = if f = entry.1 then some entry.2 else get? o f := by
  obtain ⟨g, id⟩ := entry
  by_cases h : f = g
  · simp [get?, h]
  · have hne : (f == g) = false := by simpa using h
    simp [get?, List.lookup_cons, h, hne]

theorem isSome_get?_iff : (get? o f).isSome = true ↔ f ∈ o.map Prod.fst := by
  simp [get?, List.lookup_isSome_iff]

theorem get?_filter_of_ne (h : f ≠ g) : get? (o.filter (fun p => p.1 ≠ g)) f = get? o f := by
  induction o with
  | nil => rfl
  | cons entry o ih =>
    rw [List.filter_cons]
    split
    · rw [get?_cons, get?_cons, ih]
    · next hentry =>
      have hg : entry.1 = g := by simpa using hentry
      rw [get?_cons, if_neg (fun he => h (he.trans hg)), ih]

theorem get?_bind (o : Origins) (g : Flavor) (id : FormatId) (f : Flavor) :
    (o.bind g id).get? f = if f = g then some id else o.get? f := by
  rw [bind, get?_cons]
  split
  · rfl
  · next h => rw [get?_filter_of_ne h]

theorem nodup_bind (h : (o.map Prod.fst).Nodup) (f : Flavor) (id : FormatId) :
    ((o.bind f id).map Prod.fst).Nodup := by
  refine List.nodup_cons.mpr ⟨?_, h.sublist (List.filter_sublist.map Prod.fst)⟩
  intro hmem
  obtain ⟨entry, hentry, hf⟩ := List.mem_map.mp hmem
  have hne : entry.1 ≠ f := by simpa using (List.mem_filter.mp hentry).2
  exact hne hf

/-- The last offer of a flavor stays. -/
theorem get?_ofOffers (os : List (FormatId × Flavor)) (f : Flavor) :
    (ofOffers os).get? f = (os.reverse.find? (fun p => p.2 = f)).map Prod.fst := by
  rw [ofOffers]
  induction os using List.reverseRecOn with
  | nil => rfl
  | append_singleton os offer ih =>
    rw [List.foldl_append, List.foldl_cons, List.foldl_nil, get?_bind, ih, List.reverse_append,
      List.reverse_singleton, List.singleton_append, List.find?_cons]
    by_cases h : f = offer.2
    · simp [h]
    · have h' : ¬offer.2 = f := fun he => h he.symm
      simp [h, h']

theorem nodup_ofOffers (os : List (FormatId × Flavor)) : ((ofOffers os).map Prod.fst).Nodup :=
  List.foldlRecOn os _ (motive := fun o : Origins => (o.map Prod.fst).Nodup) List.nodup_nil
    (fun _ ho offer _ => nodup_bind ho offer.2 offer.1)

end Origins

/-! ## The two passes -/

theorem get?_rebind (t : FormatTable) (os : List (FormatId × Flavor)) (o : Origins) (g f : Flavor) :
    (rebind t os o g).get? f = if f = g then (preferred? t os g).or (o.get? g) else o.get? f := by
  rw [rebind]
  cases preferred? t os g with
  | none =>
    by_cases h : f = g <;> simp [h]
  | some id => rw [Origins.get?_bind, Option.some_or]

theorem get?_foldl_rebind (t : FormatTable) (os : List (FormatId × Flavor)) (fs : List Flavor)
    (o : Origins) (f : Flavor) :
    (fs.foldl (rebind t os) o).get? f
      = if f ∈ fs then (preferred? t os f).or (o.get? f) else o.get? f := by
  induction fs using List.reverseRecOn with
  | nil => rfl
  | append_singleton fs g ih =>
    rw [List.foldl_append, List.foldl_cons, List.foldl_nil, get?_rebind]
    by_cases h : f = g
    · -- bound before or not, what the flavor prefers is the same
      subst h
      rw [if_pos rfl, if_pos (List.mem_append_right fs (List.mem_singleton_self f)), ih]
      split
      · rw [← Option.or_assoc, Option.or_self]
      · rfl
    · simp [h, ih]

theorem nodup_foldl_rebind {o : Origins} (h : (o.map Prod.fst).Nodup) (t : FormatTable)
    (os : List (FormatId × Flavor)) (fs : List Flavor) :
    ((fs.foldl (rebind t os) o).map Prod.fst).Nodup := by
  refine List.foldlRecOn fs _ (motive := fun o : Origins => (o.map Prod.fst).Nodup) h ?_
  intro o ho f _
  rw [rebind]
  split
  · exact Origins.nodup_bind ho f _
  · exact ho

/-- What both passes make of the offers. -/
def origins (t : FormatTable) (os : List (FormatId × Flavor)) : Origins :=
  (os.map Prod.snd).eraseDups.foldl (rebind t os) (.ofOffers os)

theorem offered_of_preferred? (h : preferred? t os f = some id) :
    id ∈ t.formatsForFlavor f ∧ (id, f) ∈ os := by
  have hoffered := List.find?_some h
  exact ⟨List.mem_of_find?_eq_some h, by simpa using hoffered⟩

/-- **A flavor is read from the format that it prefers**, or else from the last one. -/
theorem get?_origins (t : FormatTable) (os : List (FormatId × Flavor)) (f : Flavor) :
    (origins t os).get? f
      = (preferred? t os f).or ((os.reverse.find? (fun p => p.2 = f)).map Prod.fst) := by
  rw [origins, get?_foldl_rebind, Origins.get?_ofOffers]
  split
  · rfl
  · next hnot =>
    have hnone : preferred? t os f = none := by
      refine Option.eq_none_iff_forall_ne_some.mpr ?_
      intro id h
      exact hnot (List.mem_eraseDups.mpr (List.mem_map.mpr ⟨_, (offered_of_preferred? h).2, rfl⟩))
    rw [hnone, Option.none_or]

theorem mem_origins_iff : f ∈ (origins t os).map Prod.fst ↔ f ∈ os.map Prod.snd := by
  rw [← Origins.isSome_get?_iff, get?_origins, Option.isSome_or, Bool.or_eq_true, Option.isSome_map,
    List.find?_isSome]
  constructor
  · rintro (hpreferred | ⟨offer, hoffer, hf⟩)
    · obtain ⟨id, hid⟩ := Option.isSome_iff_exists.mp hpreferred
      exact List.mem_map.mpr ⟨_, (offered_of_preferred? hid).2, rfl⟩
    · exact List.mem_map.mpr ⟨offer, List.mem_reverse.mp hoffer, by simpa using hf⟩
  · intro hmem
    obtain ⟨offer, hoffer, hf⟩ := List.mem_map.mp hmem
    exact Or.inr ⟨offer, List.mem_reverse.mpr hoffer, by simpa using hf⟩

/-! ## The offers -/

/-- What formats lead to, of the flavors of some kind. -/
def offersBy (t : FormatTable) (p : Flavor → Bool) (ids : List FormatId) :
    List (FormatId × Flavor) :=
  ids.flatMap (fun id => ((t.flavorsForFormat id).filter p).map (fun f => (id, f)))

theorem settling_offersOf (t : FormatTable) (id : FormatId) : Memoized.Settling (offersOf t id) :=
  (Memoized.Settling.filter settling_isConvertible _).bind (fun _ => .of_pure _)

theorem settling_offers (t : FormatTable) (ids : List FormatId) :
    Memoized.Settling (offers t ids) := by
  induction ids with
  | nil => exact .of_pure []
  | cons id ids ih => exact (settling_offersOf t id).bind (fun _ => ih.bind (fun _ => .of_pure _))

theorem settling_flavorsForFormats (t : FormatTable) (ids : List FormatId) :
    Memoized.Settling (flavorsForFormats t ids) :=
  (settling_offers t ids).bind (fun _ => .of_pure _)

theorem settling_flavorSet (t : FormatTable) (ids : List FormatId) :
    Memoized.Settling (flavorSet t ids) :=
  (settling_offers t ids).bind (fun _ => .of_pure _)

theorem settling_flavorsSorted (t : FormatTable) (r : FlavorRanker) (ids : List FormatId) :
    Memoized.Settling (flavorsSorted t r ids) :=
  (settling_flavorSet t ids).bind r.settling_sort

/-- The offers are those of the flavors that can be converted, going by all that has been decided
when the last of them has been asked about. -/
theorem run_offers {memo later : SubtypeMemo}
    (hlater : SubtypeMemo.Extends ((offers t ids).run memo).2 later) :
    ((offers t ids).run memo).1 = offersBy t (isUsable later) ids := by
  induction ids generalizing memo with
  | nil => rfl
  | cons id ids ih =>
    have hfirst := Memoized.Settling.run_filter settling_isConvertible
      (((settling_offers t ids).grows _).trans hlater)
    rw [offers, Memoized.run_bind, Memoized.run_bind, Memoized.run_pure, ih hlater, offersOf,
      Memoized.run_bind, Memoized.run_pure, hfirst]
    rfl

/-- Of no flavor that a format offered leads to there is anything to decide any more. -/
theorem snd_run_isConvertible_of_offers {memo later : SubtypeMemo}
    (hlater : SubtypeMemo.Extends ((offers t ids).run memo).2 later) (hid : id ∈ ids)
    (hf : f ∈ t.flavorsForFormat id) : ((isConvertible f).run later).2 = later := by
  induction ids generalizing memo with
  | nil => cases hid
  | cons first ids ih =>
    rcases List.mem_cons.mp hid with rfl | hid
    · have hfirst : SubtypeMemo.Extends ((offersOf t id).run memo).2 later :=
        ((settling_offers t ids).grows _).trans hlater
      exact Memoized.Settling.snd_run_of_filter settling_isConvertible hfirst hf
    · exact ih hlater hid

theorem mem_offersBy : (id, f) ∈ offersBy t p ids ↔ id ∈ ids ∧ f ∈ t.flavorsForFormat id ∧ p f := by
  simp only [offersBy, List.mem_flatMap, List.mem_map, List.mem_filter, Prod.mk.injEq]
  constructor
  · rintro ⟨_, hid, _, hf, rfl, rfl⟩
    exact ⟨hid, hf⟩
  · rintro ⟨hid, hf⟩
    exact ⟨id, hid, f, hf, rfl, rfl⟩

theorem mem_snd_offersBy :
    f ∈ (offersBy t p ids).map Prod.snd ↔ p f ∧ ∃ id ∈ ids, f ∈ t.flavorsForFormat id := by
  constructor
  · intro hmem
    obtain ⟨⟨id, g⟩, hoffer, rfl⟩ := List.mem_map.mp hmem
    obtain ⟨hid, hf, hp⟩ := mem_offersBy.mp hoffer
    exact ⟨hp, id, hid, hf⟩
  · rintro ⟨hp, id, hid, hf⟩
    exact List.mem_map.mpr ⟨(id, f), mem_offersBy.mpr ⟨hid, hf, hp⟩, rfl⟩

/-- All the offers of a flavor by one format are the same. -/
theorem last_offersBy_singleton (hp : p f = true) (id : FormatId) :
    (offersBy t p [id]).reverse.find? (fun offer => offer.2 = f)
      = if f ∈ t.flavorsForFormat id then some (id, f) else none := by
  cases hlast : (offersBy t p [id]).reverse.find? (fun offer => offer.2 = f) with
  | some offer =>
    obtain ⟨id', g⟩ := offer
    have hg : g = f := by simpa using List.find?_some hlast
    subst hg
    obtain ⟨hid, hf, -⟩ := mem_offersBy.mp (List.mem_reverse.mp (List.mem_of_find?_eq_some hlast))
    rw [if_pos (List.mem_singleton.mp hid ▸ hf), List.mem_singleton.mp hid]
  | none =>
    rw [if_neg]
    intro hf
    have hoffer : (id, f) ∈ offersBy t p [id] := mem_offersBy.mpr ⟨List.mem_singleton_self id, hf, hp⟩
    simpa using List.find?_eq_none.mp hlast _ (List.mem_reverse.mpr hoffer)

/-- The last offer of a flavor is that of the last format which leads to it. -/
theorem last_offersBy (hp : p f = true) (ids : List FormatId) :
    ((offersBy t p ids).reverse.find? (fun offer => offer.2 = f)).map Prod.fst
      = ids.reverse.find? (fun id => f ∈ t.flavorsForFormat id) := by
  induction ids using List.reverseRecOn with
  | nil => rfl
  | append_singleton ids id ih =>
    have happend : offersBy t p (ids ++ [id]) = offersBy t p ids ++ offersBy t p [id] :=
      List.flatMap_append
    rw [happend, List.reverse_append, List.find?_append, last_offersBy_singleton hp,
      List.reverse_append, List.reverse_singleton, List.singleton_append, List.find?_cons]
    by_cases hf : f ∈ t.flavorsForFormat id
    · simp [hf]
    · simpa [hf] using ih

theorem preferred?_offersBy (hp : p f = true) :
    preferred? t (offersBy t p ids) f
      = (t.formatsForFlavor f).find? (fun id => id ∈ ids ∧ f ∈ t.flavorsForFormat id) := by
  rw [preferred?]
  congr 1
  funext id
  rw [List.contains_eq_mem, decide_eq_decide, mem_offersBy]
  simp [hp]

theorem nodup_eraseDups (fs : List Flavor) : fs.eraseDups.Nodup := by
  match fs with
  | [] => exact List.nodup_nil
  | f :: fs =>
    rw [List.eraseDups_cons]
    refine List.nodup_cons.mpr ⟨?_, nodup_eraseDups _⟩
    -- all that is equal to the first one has been taken out
    simp
termination_by fs.length
decreasing_by exact Nat.lt_succ_of_le (List.length_filter_le _ _)

end Negotiation

end Clipboard
