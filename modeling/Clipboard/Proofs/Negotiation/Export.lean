import Clipboard.Proofs.FormatTable
import Clipboard.Proofs.Negotiation.Bindings
import Clipboard.Proofs.TextClassifier
import Mathlib.Data.List.Basic

/-!
# What formats are exported, and from which flavors

`formatsForFlavors` finds every format that a usable flavor leads to (`mem_formats_iff`), chooses the
flavor that `choice` says, and orders the formats by the place of that flavor in the list and by their
own place among the formats of the flavor.

## The counter

Flavors are entered from the last to the first, and the preferences given for one lie above all that
were given before. `rank` is what they come to: counted from the end of the list, the formats that
the flavors lead to before it is this one's turn. `Records` says what two of the maps hold while the
flavors are gone through; there is one such pair for all flavors and one for those that come before
all others.
-/

namespace Clipboard.Negotiation

variable {t : FormatTable} {q : Flavor → Bool} {f g : Flavor} {fs : List Flavor} {id : FormatId}

/-! ## The flavor chosen -/

/-- The first flavor of some kind that leads to a format. -/
def first? (t : FormatTable) (q : Flavor → Bool) (fs : List Flavor) (id : FormatId) :
    Option Flavor :=
  fs.find? (fun f => q f && decide (id ∈ t.formatsForFlavor f))

/-- The flavor to make a format from: the first that comes before all others, or else the first. -/
def choice (t : FormatTable) (fs : List Flavor) (id : FormatId) : Option Flavor :=
  (first? t isPromoted fs id).or (first? t (fun _ => true) fs id)

theorem first?_cons_of_pos (h : q f = true) (hid : id ∈ t.formatsForFlavor f) :
    first? t q (f :: fs) id = some f := by
  simp [first?, h, hid]

theorem first?_cons_of_neg (h : ¬(q f = true ∧ id ∈ t.formatsForFlavor f)) :
    first? t q (f :: fs) id = first? t q fs id := by
  refine List.find?_cons_of_neg ?_
  simpa using h

theorem of_first? (h : first? t q fs id = some f) :
    f ∈ fs ∧ q f = true ∧ id ∈ t.formatsForFlavor f := by
  have hf := List.find?_some h
  simp only [Bool.and_eq_true, decide_eq_true_eq] at hf
  exact ⟨List.mem_of_find?_eq_some h, hf⟩

theorem isSome_first?_iff :
    (first? t q fs id).isSome = true ↔ ∃ f ∈ fs, q f = true ∧ id ∈ t.formatsForFlavor f := by
  simp [first?, List.find?_isSome]

theorem of_choice (h : choice t fs id = some f) : f ∈ fs ∧ id ∈ t.formatsForFlavor f := by
  rcases Option.or_eq_some_iff.mp h with hfirst | ⟨-, hfirst⟩
  · obtain ⟨hmem, -, hid⟩ := of_first? hfirst
    exact ⟨hmem, hid⟩
  · obtain ⟨hmem, -, hid⟩ := of_first? hfirst
    exact ⟨hmem, hid⟩

theorem isSome_choice_iff :
    (choice t fs id).isSome = true ↔ ∃ f ∈ fs, id ∈ t.formatsForFlavor f := by
  rw [choice, Option.isSome_or, Bool.or_eq_true, isSome_first?_iff, isSome_first?_iff]
  constructor
  · rintro (⟨f, hf, -, hid⟩ | ⟨f, hf, -, hid⟩) <;> exact ⟨f, hf, hid⟩
  · rintro ⟨f, hf, hid⟩
    exact Or.inr ⟨f, hf, rfl, hid⟩

/-! ## The preferences -/

/-- The number of formats that flavors lead to, a format being counted for each flavor. -/
def span (t : FormatTable) : List Flavor → Nat
  | [] => 0
  | f :: fs => (t.formatsForFlavor f).length + span t fs

/-- The preference of a format that is made from a flavor. -/
def rank (t : FormatTable) : List Flavor → Flavor → FormatId → Nat
  | [], _, _ => 0
  | g :: fs, f, id =>
    if g = f then span t fs + ((t.formatsForFlavor f).length - (t.formatsForFlavor f).idxOf id)
    else rank t fs f id

theorem rank_le_span (t : FormatTable) (fs : List Flavor) (f : Flavor) (id : FormatId) :
    rank t fs f id ≤ span t fs := by
  induction fs with
  | nil => exact Nat.le_refl 0
  | cons g fs ih =>
    rw [rank, span]
    split
    · next hg =>
      subst hg
      omega
    · omega

theorem idxOf_lt_of_lt_cons {a b x : Flavor} {xs : List Flavor} (hb : x ≠ b)
    (h : (x :: xs).idxOf a < (x :: xs).idxOf b) (ha : x ≠ a) : xs.idxOf a < xs.idxOf b := by
  have ha : (x == a) = false := by simpa using ha
  have hb : (x == b) = false := by simpa using hb
  simpa [List.idxOf_cons, ha, hb] using h

/-- One format of a flavor comes before one of another: the flavor is listed before the other, or it
is the same flavor and the format is listed before the other. -/
def Precedes (t : FormatTable) (fs : List Flavor) (a b : Flavor × FormatId) : Prop :=
  fs.idxOf a.1 < fs.idxOf b.1 ∨
    (a.1 = b.1 ∧ (t.formatsForFlavor a.1).idxOf a.2 < (t.formatsForFlavor b.1).idxOf b.2)

/-- **What comes first has the greater preference.** -/
theorem rank_lt_of_precedes {id' : FormatId} (hf : f ∈ fs) (hid : id ∈ t.formatsForFlavor f)
    (h : Precedes t fs (f, id) (g, id')) : rank t fs g id' < rank t fs f id := by
  induction fs with
  | nil => exact absurd hf List.not_mem_nil
  | cons x fs ih =>
    have hlt := List.idxOf_lt_length_of_mem hid
    -- the preferences of the head lie above all those of the flavors behind it
    by_cases hxf : x = f
    · subst hxf
      rw [rank, rank, if_pos rfl]
      split
      · next hxg =>
        subst hxg
        rcases h with hidx | ⟨-, hidx⟩
        · exact absurd hidx (Nat.lt_irrefl _)
        · dsimp only at hidx
          omega
      · have := rank_le_span t fs g id'
        omega
    · have hxg : x ≠ g := by
        rintro rfl
        rcases h with hidx | ⟨heq, -⟩
        · simp [List.idxOf_cons_self] at hidx
        · exact hxf heq.symm
      rw [rank, rank, if_neg hxf, if_neg hxg]
      refine ih ((List.mem_cons.mp hf).resolve_left (fun he => hxf he.symm)) ?_
      rcases h with hidx | hsame
      · exact Or.inl (idxOf_lt_of_lt_cons hxg hidx hxf)
      · exact Or.inr hsame

/-! ## Entering flavors -/

/-- Formats with the numbers from `n` down. -/
def numbered (n : Int) : List FormatId → Bindings Int
  | [] => []
  | id :: ids => (id, n) :: numbered (n - 1) ids

theorem fst_numbered (n : Int) (ids : List FormatId) : (numbered n ids).map Prod.fst = ids := by
  induction ids generalizing n with
  | nil => rfl
  | cons id ids ih => rw [numbered, List.map_cons, ih]

theorem get?_numbered (n : Int) (ids : List FormatId) (id : FormatId) :
    (numbered n ids).get? id = if id ∈ ids then some (n - ids.idxOf id) else none := by
  induction ids generalizing n with
  | nil => rfl
  | cons k ids ih =>
    rw [numbered, Bindings.get?_cons, ih]
    by_cases hid : id = k
    · simp [hid]
    · have hne : (k == id) = false := by simpa using fun h => hid h.symm
      simp only [hid, if_false, List.mem_cons, false_or, List.idxOf_cons, hne, cond_false]
      split
      · congr 1
        omega
      · rfl

theorem get?_map_const (f : Flavor) (ids : List FormatId) (id : FormatId) :
    Bindings.get? (ids.map (fun id => (id, f))) id = if id ∈ ids then some f else none := by
  induction ids with
  | nil => rfl
  | cons k ids ih =>
    rw [List.map_cons, Bindings.get?_cons, ih]
    by_cases hid : id = k <;> simp [hid]

/-- Counting formats one by one is binding them all. -/
theorem foldl_count (y : Tally) (f : Flavor) (ids : List FormatId) :
    ids.foldl (fun y id => y.count f id) y =
      { counter := y.counter - ids.length
        flavors := y.flavors.extend (ids.map (fun id => (id, f)))
        indices := y.indices.extend (numbered y.counter ids)
        promotedFlavors :=
          if isPromoted f then y.promotedFlavors.extend (ids.map (fun id => (id, f)))
          else y.promotedFlavors
        promotedIndices :=
          if isPromoted f then y.promotedIndices.extend (numbered y.counter ids)
          else y.promotedIndices } := by
  -- every format lowers the counter, so the tally is any
  induction ids generalizing y with
  | nil => simp [Bindings.extend, numbered]
  | cons id ids ih =>
    rw [List.foldl_cons, ih]
    cases hf : isPromoted f
    · simp only [Tally.count, hf, List.map_cons, numbered, Bindings.extend_cons, List.length_cons,
        Bool.false_eq_true, if_false]
      congr 1
      omega
    · simp only [Tally.count, hf, List.map_cons, numbered, Bindings.extend_cons, List.length_cons,
        if_true]
      congr 1
      omega

/-- What two maps hold of the flavors of some kind: the first one that leads to a format, and the
preference that it gives it. -/
structure Records (t : FormatTable) (q : Flavor → Bool) (fs : List Flavor)
    (flavors : Bindings Flavor) (indices : Bindings Int) : Prop where
  functional_flavors : flavors.Functional
  functional_indices : indices.Functional
  get?_flavors : ∀ id, flavors.get? id = first? t q fs id
  get?_indices : ∀ id, indices.get? id = (first? t q fs id).map (fun f => (rank t fs f id : Int))

theorem Records.empty (t : FormatTable) (q : Flavor → Bool) : Records t q [] [] [] :=
  ⟨List.nodup_nil, List.nodup_nil, fun _ => rfl, fun _ => rfl⟩

/-- A flavor in front leaves the preferences of the others as they are. -/
theorem rank_cons_of_first? (h : first? t q fs id = some g)
    (hf : ¬(q f = true ∧ id ∈ t.formatsForFlavor f)) : rank t (f :: fs) g id = rank t fs g id := by
  have hne : f ≠ g := by
    rintro rfl
    exact hf (of_first? h).2
  rw [rank, if_neg hne]

theorem Records.skip {flavors : Bindings Flavor} {indices : Bindings Int}
    (h : Records t q fs flavors indices) (hf : ¬q f = true) :
    Records t q (f :: fs) flavors indices := by
  have hnot : ∀ id, ¬(q f = true ∧ id ∈ t.formatsForFlavor f) := fun _ hq => hf hq.1
  refine ⟨h.functional_flavors, h.functional_indices, fun id => ?_, fun id => ?_⟩
  · rw [first?_cons_of_neg (hnot id), h.get?_flavors]
  · rw [first?_cons_of_neg (hnot id), h.get?_indices]
    cases hfirst : first? t q fs id with
    | none => rfl
    | some g => simp only [Option.map_some, rank_cons_of_first? hfirst (hnot id)]

/-- A flavor in front takes all the formats it leads to. -/
theorem Records.enter {flavors : Bindings Flavor} {indices : Bindings Int} {n : Int}
    (h : Records t q fs flavors indices) (hnodup : (t.formatsForFlavor f).Nodup) (hf : q f = true)
    (hn : n = span t fs + (t.formatsForFlavor f).length) :
    Records t q (f :: fs) (flavors.extend ((t.formatsForFlavor f).map (fun id => (id, f))))
      (indices.extend (numbered n (t.formatsForFlavor f))) := by
  have hflavors : Bindings.Functional ((t.formatsForFlavor f).map (fun id => (id, f))) := by
    simpa [Bindings.Functional, Function.comp_def] using hnodup
  have hindices : (numbered n (t.formatsForFlavor f)).Functional := by
    rw [Bindings.Functional, fst_numbered]
    exact hnodup
  refine ⟨h.functional_flavors.extend _, h.functional_indices.extend _, fun id => ?_, fun id => ?_⟩
  · rw [Bindings.get?_extend hflavors, get?_map_const, h.get?_flavors]
    by_cases hid : id ∈ t.formatsForFlavor f
    · rw [if_pos hid, first?_cons_of_pos hf hid]
      rfl
    · rw [if_neg hid, first?_cons_of_neg (fun hq => hid hq.2)]
      rfl
  -- counted down from `n`, the formats end above what was given to the flavors behind
  · rw [Bindings.get?_extend hindices, get?_numbered, h.get?_indices]
    by_cases hid : id ∈ t.formatsForFlavor f
    · have hlt := List.idxOf_lt_length_of_mem hid
      rw [if_pos hid, first?_cons_of_pos hf hid, Option.map_some, rank, if_pos rfl, hn]
      simp only [Option.some_or]
      congr 1
      omega
    · have hnot : ¬(q f = true ∧ id ∈ t.formatsForFlavor f) := fun hq => hid hq.2
      rw [if_neg hid, first?_cons_of_neg hnot]
      cases hfirst : first? t q fs id with
      | none => rfl
      | some g => simp only [Option.map_some, rank_cons_of_first? hfirst hnot, Option.none_or]

/-! ## Going through the flavors -/

/-- Flavors entered from the last to the first. -/
def enterAll (t : FormatTable) (fs : List Flavor) : Tally :=
  fs.foldr (fun f y => y.enter f (t.formatsForFlavor f)) Tally.empty

/-- What is known when these flavors have been entered. -/
structure Entered (t : FormatTable) (fs : List Flavor) (y : Tally) : Prop where
  counter : y.counter = span t fs
  all : Records t (fun _ => true) fs y.flavors y.indices
  promoted : Records t isPromoted fs y.promotedFlavors y.promotedIndices

/-- **One flavor more.** -/
theorem Entered.enter {y : Tally} (h : Entered t fs y) (hnodup : (t.formatsForFlavor f).Nodup) :
    Entered t (f :: fs) (y.enter f (t.formatsForFlavor f)) := by
  have hraised : (y.raise (t.formatsForFlavor f).length).counter
      = span t fs + (t.formatsForFlavor f).length := by
    rw [Tally.raise, h.counter]
  rw [Tally.enter, foldl_count]
  refine ⟨?_, h.all.enter hnodup rfl hraised, ?_⟩
  · simp only [Tally.raise, h.counter, span]
    omega
  · by_cases hf : isPromoted f = true
    · simp only [Tally.raise, hf, if_true]
      exact h.promoted.enter hnodup hf hraised
    · simp only [Tally.raise, hf, Bool.false_eq_true, if_false]
      exact h.promoted.skip hf

theorem entered_enterAll (ht : t.Reachable) (fs : List Flavor) : Entered t fs (enterAll t fs) := by
  induction fs with
  | nil => exact ⟨rfl, .empty _ _, .empty _ _⟩
  | cons f fs ih => exact ih.enter (ht.nodup_formats f)

theorem settling_isConvertible (f : Flavor) : Memoized.Settling (isConvertible f) :=
  (TextClassifier.settling_isText f).bind (fun _ => .of_pure _)

theorem settling_tally (t : FormatTable) (fs : List Flavor) (y : Tally) :
    Memoized.Settling (tally t fs y) := by
  induction fs generalizing y with
  | nil => exact .of_pure y
  | cons f fs ih => exact (settling_isConvertible f).bind (fun _ => .of_ite (ih _) (ih _))

theorem settling_formatsForFlavors (t : FormatTable) (fs : List Flavor) :
    Memoized.Settling (formatsForFlavors t fs) :=
  (settling_tally t fs.reverse Tally.empty).bind (fun _ => .of_pure _)

/-- Whether a flavor can be converted, going by decisions that have been made. -/
def isUsable (memo : SubtypeMemo) (f : Flavor) : Bool := ((isConvertible f).run memo).1

/-- The flavors entered are those that can be converted, also going by all the decisions made on
the way. -/
theorem run_tally (t : FormatTable) (fs : List Flavor) (y : Tally) (memo : SubtypeMemo) :
    ((tally t fs y).run memo).1
      = (fs.filter (isUsable ((tally t fs y).run memo).2)).foldl
          (fun y f => y.enter f (t.formatsForFlavor f)) y := by
  induction fs generalizing y memo with
  | nil => rfl
  | cons f fs ih =>
    -- what is decided of `f` is still so when the others have been asked about
    have hsettled : ∀ y' : Tally, isUsable ((tally t fs y').run ((isConvertible f).run memo).2).2 f
        = ((isConvertible f).run memo).1 := by
      intro y'
      have hlater := (settling_tally t fs y').grows ((isConvertible f).run memo).2
      rw [isUsable, (settling_isConvertible f).again hlater]
    rw [tally, Memoized.run_bind, Memoized.run_ite]
    split
    · next hf => rw [List.filter_cons, if_pos ((hsettled _).trans hf), List.foldl_cons, ih]
    · next hf => rw [List.filter_cons, if_neg (by rw [hsettled]; exact hf), ih]

/-- The flavors of a list that can be converted when all of it has been gone through. -/
def usable (t : FormatTable) (fs : List Flavor) (memo : SubtypeMemo) : List Flavor :=
  fs.filter (isUsable ((formatsForFlavors t fs).run memo).2)

theorem run_tally_reverse (t : FormatTable) (fs : List Flavor) (memo : SubtypeMemo) :
    ((tally t fs.reverse Tally.empty).run memo).1 = enterAll t (usable t fs memo) := by
  rw [run_tally, List.filter_reverse, List.foldl_reverse]
  rfl

/-! ## Sorting -/

/-- By preference, the greater first, and then by number. -/
def ComesFirst (order : IndexOrder) (a b : FormatId) : Prop :=
  order.indexOf b < order.indexOf a ∨ (order.indexOf a = order.indexOf b ∧ a.number ≤ b.number)

theorem comesFirst_iff {order : IndexOrder} (h : order.selection = .best) (a b : FormatId) :
    (order.compare a b != .gt) = true ↔ ComesFirst order a b := by
  rw [IndexOrder.compare, h, ComesFirst]
  have hnumbers : compare a b ≠ .gt ↔ a.number ≤ b.number :=
    Nat.compare_ne_gt
  rcases Int.lt_trichotomy (order.indexOf a) (order.indexOf b) with hlt | heq | hgt
  · have hindices : compare (order.indexOf a) (order.indexOf b) = .lt := Int.compare_eq_lt.mpr hlt
    simp [Selection.orient, hindices, Ordering.swap]
    omega
  · have hindices : compare (order.indexOf a) (order.indexOf b) = .eq := Int.compare_eq_eq.mpr heq
    simp only [Selection.orient, hindices, Ordering.swap, Ordering.eq_then, bne_iff_ne, hnumbers]
    omega
  · have hindices : compare (order.indexOf a) (order.indexOf b) = .gt := Int.compare_eq_gt.mpr hgt
    simp [Selection.orient, hindices, Ordering.swap]
    omega

theorem indexOf_of_functional {indices : Bindings Int} (h : indices.Functional) (id : FormatId) :
    IndexOrder.indexOf { indices, selection := .best } id
      = (indices.get? id).getD IndexOrder.lowest := by
  have hget := Bindings.get?_of_perm h (List.reverse_perm indices) id
  rw [IndexOrder.indexOf, ← hget]
  rfl

theorem pairwise_mergeSort_entries {order : IndexOrder} (h : order.selection = .best)
    (entries : Bindings Flavor) :
    (entries.mergeSort (fun a b => order.compare a.1 b.1 != .gt)).Pairwise
      (fun a b => ComesFirst order a.1 b.1) := by
  refine (List.pairwise_mergeSort ?_ ?_ entries).imp (fun hab => (comesFirst_iff h _ _).mp hab)
  · intro a b c hab hbc
    rw [comesFirst_iff h, ComesFirst] at hab hbc ⊢
    omega
  · intro a b
    rw [Bool.or_eq_true, comesFirst_iff h, comesFirst_iff h, ComesFirst, ComesFirst]
    omega

/-- **The result does not depend on the order in which bindings are kept.** -/
theorem sortBy_of_perm {indices indices' : Bindings Int} {entries entries' : Bindings Flavor}
    (hindices : ∀ id, indices'.get? id = indices.get? id) (hfun : indices.Functional)
    (hfun' : indices'.Functional) (hentries : entries.Functional)
    (hperm : entries'.Perm entries) :
    Tally.sortBy indices' entries' = Tally.sortBy indices entries := by
  have hindex : IndexOrder.indexOf { indices := indices', selection := .best }
      = IndexOrder.indexOf { indices, selection := .best } := by
    funext id
    rw [indexOf_of_functional hfun, indexOf_of_functional hfun', hindices]
  have hcompare : IndexOrder.compare { indices := indices', selection := .best }
      = IndexOrder.compare { indices, selection := .best } := by
    funext a b
    rw [IndexOrder.compare, IndexOrder.compare, hindex]
  have hkeys : ∀ a ∈ entries, ∀ b ∈ entries, a.1 = b.1 → a = b := by
    intro a ha b hb hab
    have hget := (Bindings.mem_iff hentries).mp ha
    rw [hab, (Bindings.mem_iff hentries).mp hb] at hget
    exact Prod.ext hab (Option.some.inj hget).symm
  have hsorted : entries'.mergeSort (fun a b => IndexOrder.compare
        { indices, selection := .best } a.1 b.1 != .gt)
      = entries.mergeSort (fun a b => IndexOrder.compare
        { indices, selection := .best } a.1 b.1 != .gt) := by
    -- two sorted lists of the same entries; of two formats none is level with the other
    refine List.Perm.eq_of_pairwise ?_ (pairwise_mergeSort_entries rfl entries')
      (pairwise_mergeSort_entries rfl entries)
      ((List.mergeSort_perm _ _).trans (hperm.trans (List.mergeSort_perm _ _).symm))
    intro a b ha hb hab hba
    have ha := hperm.mem_iff.mp ((List.mergeSort_perm _ _).mem_iff.mp ha)
    have hb := (List.mergeSort_perm _ _).mem_iff.mp hb
    refine hkeys a ha b hb ?_
    rw [ComesFirst] at hab hba
    have hnumber : a.1.number = b.1.number := by omega
    cases ha' : a.1
    cases hb' : b.1
    rw [ha', hb'] at hnumber
    exact congrArg FormatId.mk hnumber
  rw [Tally.sortBy, Tally.sortBy, hcompare, hindex, hsorted]

/-! ## The result -/

theorem perm_formats (y : Tally) :
    y.ranked.formats.Perm ((y.flavors.extend y.promotedFlavors).map Prod.fst) := by
  rw [Tally.ranked, Tally.sortBy, RankedFormats.formats, List.map_map]
  exact (List.mergeSort_perm _ _).map Prod.fst

/-- The greater preference comes first. -/
theorem pairwise_index_le (y : Tally) : y.ranked.Pairwise (fun a b => b.index ≤ a.index) := by
  rw [Tally.ranked, Tally.sortBy, List.pairwise_map]
  refine (pairwise_mergeSort_entries rfl _).imp ?_
  intro a b hab
  dsimp only
  rw [ComesFirst] at hab
  omega

namespace Entered

variable {y : Tally}

theorem functional_flavors (h : Entered t fs y) :
    (y.flavors.extend y.promotedFlavors).Functional := h.all.functional_flavors.extend _

theorem functional_indices (h : Entered t fs y) :
    (y.indices.extend y.promotedIndices).Functional := h.all.functional_indices.extend _

theorem get?_flavors (h : Entered t fs y) (id : FormatId) :
    (y.flavors.extend y.promotedFlavors).get? id = choice t fs id := by
  rw [Bindings.get?_extend h.promoted.functional_flavors, h.promoted.get?_flavors,
    h.all.get?_flavors, choice]

/-- The promotion of a flavor takes its preference along. -/
theorem get?_indices (h : Entered t fs y) (id : FormatId) :
    (y.indices.extend y.promotedIndices).get? id
      = (choice t fs id).map (fun f => (rank t fs f id : Int)) := by
  rw [Bindings.get?_extend h.promoted.functional_indices, h.promoted.get?_indices,
    h.all.get?_indices, choice]
  cases first? t isPromoted fs id <;> rfl

/-- **No format is found twice.** -/
theorem nodup_formats (h : Entered t fs y) : y.ranked.formats.Nodup :=
  (perm_formats y).nodup_iff.mpr h.functional_flavors

theorem of_mem_ranked {c : Candidate} (h : Entered t fs y) (hc : c ∈ y.ranked) :
    choice t fs c.format = some c.flavor ∧ c.index = rank t fs c.flavor c.format := by
  obtain ⟨entry, hentry, rfl⟩ := List.mem_map.mp hc
  have hmem := (List.mergeSort_perm _ _).mem_iff.mp hentry
  have hchoice := (Bindings.mem_iff h.functional_flavors).mp hmem
  rw [h.get?_flavors] at hchoice
  refine ⟨hchoice, ?_⟩
  dsimp only
  rw [indexOf_of_functional h.functional_indices, h.get?_indices, hchoice]
  rfl

theorem mem_formats_iff (h : Entered t fs y) :
    id ∈ y.ranked.formats ↔ ∃ f ∈ fs, id ∈ t.formatsForFlavor f := by
  rw [(perm_formats y).mem_iff, ← isSome_choice_iff, ← h.get?_flavors, Option.isSome_iff_ne_none,
    Ne, Bindings.get?_eq_none_iff]
  simp

theorem pairwise_format_ne (h : Entered t fs y) :
    y.ranked.Pairwise (fun a b => a.format ≠ b.format) := by
  have hnodup := h.nodup_formats
  rw [RankedFormats.formats, List.Nodup, List.pairwise_map] at hnodup
  exact hnodup

end Entered

/-- Of two formats one comes before the other. -/
theorem precedes_total {id' : FormatId} (hf : f ∈ fs) (hid : id ∈ t.formatsForFlavor f)
    (hne : id ≠ id') : Precedes t fs (f, id) (g, id') ∨ Precedes t fs (g, id') (f, id) := by
  rcases Nat.lt_trichotomy (fs.idxOf f) (fs.idxOf g) with hlt | heq | hgt
  · exact Or.inl (Or.inl hlt)
  · have hfg : f = g := (List.idxOf_inj hf).mp heq
    subst hfg
    rcases Nat.lt_trichotomy ((t.formatsForFlavor f).idxOf id)
      ((t.formatsForFlavor f).idxOf id') with hlt | heq | hgt
    · exact Or.inl (Or.inr ⟨rfl, hlt⟩)
    · exact absurd ((List.idxOf_inj hid).mp heq) hne
    · exact Or.inr (Or.inr ⟨rfl, hgt⟩)
  · exact Or.inr (Or.inl hgt)

/-- **The entries are in the order of the flavors and of their formats**, and so the preferences
fall. -/
theorem Entered.pairwise_precedes {y : Tally} (h : Entered t fs y) :
    y.ranked.Pairwise (fun a b =>
      Precedes t fs (a.flavor, a.format) (b.flavor, b.format) ∧ b.index < a.index) := by
  refine ((pairwise_index_le y).and h.pairwise_format_ne).imp_of_mem ?_
  rintro a b ha hb ⟨hindex, hne⟩
  obtain ⟨hchoice, harank⟩ := h.of_mem_ranked ha
  obtain ⟨hchoice', hbrank⟩ := h.of_mem_ranked hb
  obtain ⟨hflavor, hformat⟩ := of_choice hchoice
  obtain ⟨hflavor', hformat'⟩ := of_choice hchoice'
  rcases precedes_total hflavor hformat hne with hfirst | hlater
  · have hlt := rank_lt_of_precedes hflavor hformat hfirst
    exact ⟨hfirst, by omega⟩
  · -- the other order would contradict the preferences
    have hlt := rank_lt_of_precedes hflavor' hformat' hlater
    omega

/-- Leaving out flavors keeps the others in order. -/
theorem idxOf_lt_of_filter {p : Flavor → Bool} (hf : p f = true) (hg : p g = true)
    (h : (fs.filter p).idxOf f < (fs.filter p).idxOf g) : fs.idxOf f < fs.idxOf g := by
  induction fs with
  | nil => exact absurd h (Nat.lt_irrefl _)
  | cons x fs ih =>
    by_cases hxg : x = g
    · subst hxg
      rw [List.filter_cons, if_pos hg, List.idxOf_cons_self] at h
      exact absurd h (Nat.not_lt_zero _)
    · by_cases hxf : x = f
      · subst hxf
        rw [List.idxOf_cons_self, List.idxOf_cons_ne _ hxg]
        exact Nat.succ_pos _
      · rw [List.idxOf_cons_ne _ hxf, List.idxOf_cons_ne _ hxg]
        refine Nat.succ_lt_succ (ih ?_)
        rw [List.filter_cons] at h
        split at h
        · rw [List.idxOf_cons_ne _ hxf, List.idxOf_cons_ne _ hxg] at h
          exact Nat.lt_of_succ_lt_succ h
        · exact h

theorem precedes_of_filter {p : Flavor → Bool} {a b : Flavor × FormatId} (ha : p a.1 = true)
    (hb : p b.1 = true) (h : Precedes t (fs.filter p) a b) : Precedes t fs a b :=
  h.imp (idxOf_lt_of_filter ha hb) id

/-- **Export negotiation is what it should be**: every format that a usable flavor leads to is found
once, it is made from the flavor that `choice` says, and the entries are in the order of these
flavors in the list and of the formats among those of a flavor, while the preferences fall. None of
it depends on the order in which the maps are gone through. -/
theorem formatsForFlavors_spec (ht : t.Reachable) (fs : List Flavor) (memo : SubtypeMemo) :
    let ranked := ((formatsForFlavors t fs).run memo).1
    let y := ((tally t fs.reverse Tally.empty).run memo).1
    ranked.formats.Nodup ∧
    (∀ id, id ∈ ranked.formats ↔ ∃ f ∈ usable t fs memo, id ∈ t.formatsForFlavor f) ∧
    (∀ c ∈ ranked, choice t (usable t fs memo) c.format = some c.flavor) ∧
    ranked.Pairwise (fun a b =>
      Precedes t fs (a.flavor, a.format) (b.flavor, b.format) ∧ b.index < a.index) ∧
    ∀ promotedFlavors promotedIndices entries, promotedFlavors.Perm y.promotedFlavors →
      promotedIndices.Perm y.promotedIndices → entries.Perm (y.flavors.extend promotedFlavors) →
      Tally.sortBy (y.indices.extend promotedIndices) entries = ranked := by
  intro ranked y
  have hy : Entered t (usable t fs memo) y := by
    have h := entered_enterAll ht (usable t fs memo)
    rwa [← run_tally_reverse] at h
  refine ⟨hy.nodup_formats, fun id => hy.mem_formats_iff, fun c hc => (hy.of_mem_ranked hc).1,
    ?_, ?_⟩
  · refine hy.pairwise_precedes.imp_of_mem ?_
    rintro a b ha hb ⟨hprecedes, hindex⟩
    have hausable := (of_choice (hy.of_mem_ranked ha).1).1
    have hbusable := (of_choice (hy.of_mem_ranked hb).1).1
    exact ⟨precedes_of_filter (List.mem_filter.mp hausable).2 (List.mem_filter.mp hbusable).2
      hprecedes, hindex⟩
  · intro promotedFlavors promotedIndices entries hflavors hindices hentries
    have hsame : (y.flavors.extend promotedFlavors).Perm (y.flavors.extend y.promotedFlavors) :=
      Bindings.perm_of_get? (hy.all.functional_flavors.extend _) hy.functional_flavors
        (Bindings.get?_extend_of_perm hy.promoted.functional_flavors hflavors y.flavors)
    exact sortBy_of_perm
      (Bindings.get?_extend_of_perm hy.promoted.functional_indices hindices y.indices)
      hy.functional_indices (hy.all.functional_indices.extend _) hy.functional_flavors
      (hentries.trans hsame)

/-- A format that two flavors lead to is made from the string, though HTML is offered before it and
once more behind it. -/
theorem formatsForFlavors_spec_html :
    let html := Flavor.ofParts "text" "html" [] .string
    let t := ((FormatTable.empty.addFormatForFlavor html ⟨1⟩).addFormatForFlavor html
      ⟨2⟩).addFormatForFlavor Flavor.string ⟨2⟩
    let ranked := ((formatsForFlavors t [html, Flavor.string, html]).run .empty).1
    t.Reachable ∧ ranked.formats.Nodup ∧ ⟨2⟩ ∈ ranked.formats ∧
      ∀ c ∈ ranked, c.format = ⟨2⟩ → c.flavor = Flavor.string := by
  intro html t ranked
  have ht : t.Reachable := .addFormatForFlavor _ _
    (.addFormatForFlavor _ _ (.addFormatForFlavor _ _ .empty))
  have husable : usable t [html, Flavor.string, html] .empty = [html, Flavor.string, html] := by
    decide +kernel
  obtain ⟨hnodup, hformats, hchoice, -⟩ :=
    formatsForFlavors_spec ht [html, Flavor.string, html] .empty
  rw [husable] at hformats hchoice
  refine ⟨ht, hnodup, (hformats ⟨2⟩).mpr ⟨html, by decide +kernel, by decide +kernel⟩, ?_⟩
  intro c hc hformat
  have hc := hchoice c hc
  have hstring : choice t [html, Flavor.string, html] ⟨2⟩ = some Flavor.string := by
    decide +kernel
  rw [hformat, hstring] at hc
  exact (Option.some.inj hc).symm

end Clipboard.Negotiation
