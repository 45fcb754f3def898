import Clipboard.Proofs.TextClassifier
import Clipboard.Sorting

/-!
# Sorting by insertion

Whatever the comparison, insertion keeps all elements (`perm_insertionSort`), and if the comparison
orders them it sorts them (`run_insertionSort`). So it is a sorter (`Sorter.insertion`), and so
is the one that is strict about the comparison and breaks off where it may (`Sorter.strict`). As there
is that one, sorting gives something for sure only if the comparison orders the elements
(`Sorter.isSome_run_iff`).
-/

namespace Clipboard

open Memoized (Settling)

variable {α : Type} {compare : α → α → Memoized Ordering} {cmp cmp' : α → α → Ordering}
  {memo later : SubtypeMemo} {a : α} {as bs all out : List α}

namespace IsOrder

theorem of_subset (h : IsOrder cmp as) (hsub : ∀ b ∈ bs, b ∈ as) : IsOrder cmp bs where
  swap a ha b hb := h.swap a (hsub a ha) b (hsub b hb)
  trans a ha b hb c hc := h.trans a (hsub a ha) b (hsub b hb) c (hsub c hc)

theorem iff_of_mem_iff (h : ∀ a, a ∈ as ↔ a ∈ bs) : IsOrder cmp as ↔ IsOrder cmp bs :=
  ⟨fun has => has.of_subset (fun b hb => (h b).mpr hb),
    fun hbs => hbs.of_subset (fun a ha => (h a).mp ha)⟩

theorem congr (h : IsOrder cmp as) (hsame : ∀ a ∈ as, ∀ b ∈ as, cmp' a b = cmp a b) :
    IsOrder cmp' as where
  swap a ha b hb := by
    rw [hsame a ha b hb, hsame b hb a ha]
    exact h.swap a ha b hb
  trans a ha b hb c hc := by
    rw [hsame a ha b hb, hsame b hb c hc, hsame a ha c hc]
    exact h.trans a ha b hb c hc

/-- Of two elements one may stand before the other. -/
theorem isLE_of_ne_lt (h : IsOrder cmp as) {b : α} (ha : a ∈ as) (hb : b ∈ as)
    (hab : cmp a b ≠ .lt) : (cmp b a).isLE = true := by
  rw [h.swap a ha b hb]
  revert hab
  cases cmp a b <;> decide

/-- Elements either of which may stand before the other are level. -/
theorem eq_of_isLE (h : IsOrder cmp as) {b : α} (ha : a ∈ as) (hb : b ∈ as)
    (hab : (cmp a b).isLE = true) (hba : (cmp b a).isLE = true) : cmp a b = .eq := by
  rw [h.swap a ha b hb] at hba
  revert hab hba
  cases cmp a b <;> decide

theorem compare_self (h : IsOrder cmp as) (ha : a ∈ as) : cmp a a = .eq := by
  have hswap := h.swap a ha a ha
  revert hswap
  cases cmp a a <;> decide

/-- Elements that are level with one of them are level with one another. -/
theorem eq_of_eq_eq (h : IsOrder cmp as) {b c : α} (ha : a ∈ as) (hb : b ∈ as) (hc : c ∈ as)
    (hca : cmp c a = .eq) (hcb : cmp c b = .eq) : cmp a b = .eq := by
  have hle (x y : α) (hx : x ∈ as) (hy : y ∈ as) (hcx : cmp c x = .eq) (hcy : cmp c y = .eq) :
      (cmp x y).isLE = true := by
    refine h.trans x hx c hc y hy ?_ (by rw [hcy]; rfl)
    rw [h.swap c hc x hx, hcx]
    rfl
  exact h.eq_of_isLE ha hb (hle a b ha hb hca hcb) (hle b a hb ha hcb hca)

/-- The first of elements in order may stand before all of them. -/
theorem isLE_of_pairwise (h : IsOrder cmp as) {b : α} (ha : a ∈ as)
    (hsorted : (a :: bs).Pairwise (fun a b => (cmp a b).isLE = true)) (hb : b ∈ a :: bs) :
    (cmp a b).isLE = true := by
  rcases List.mem_cons.mp hb with rfl | hb
  · rw [h.compare_self ha]
    rfl
  · exact (List.pairwise_cons.mp hsorted).1 b hb

/-- Elements in order are the same list if those that are level stand as in the other one. -/
theorem eq_of_perm (h : IsOrder cmp all) (hperm : as.Perm bs) (hall : ∀ a ∈ as, a ∈ all)
    (has : as.Pairwise (fun a b => (cmp a b).isLE = true))
    (hbs : bs.Pairwise (fun a b => (cmp a b).isLE = true))
    (hlevel : ∀ c ∈ all, as.filter (fun b => cmp c b = .eq) = bs.filter (fun b => cmp c b = .eq)) :
    as = bs := by
  induction as generalizing bs with
  | nil => exact (List.nil_perm.mp hperm).symm
  | cons a as ih =>
    cases bs with
    | nil => cases List.perm_nil.mp hperm
    | cons b bs =>
      have ha : a ∈ all := hall a List.mem_cons_self
      have hb : b ∈ a :: as := hperm.mem_iff.mpr List.mem_cons_self
      have hab : cmp a b = .eq := by
        refine h.eq_of_isLE ha (hall b hb) (h.isLE_of_pairwise ha has hb) ?_
        exact h.isLE_of_pairwise (hall b hb) hbs (hperm.mem_iff.mp List.mem_cons_self)
      -- both are the first of those that are level with `a`
      have hfirst := hlevel a ha
      rw [List.filter_cons_of_pos (by simpa using h.compare_self ha),
        List.filter_cons_of_pos (by simpa using hab)] at hfirst
      obtain rfl : a = b := (List.cons.inj hfirst).1
      refine congrArg _ (ih hperm.cons_inv (fun x hx => hall x (List.mem_cons_of_mem a hx))
        has.tail hbs.tail (fun c hc => ?_))
      have hrest := hlevel c hc
      rw [List.filter_cons, List.filter_cons] at hrest
      split at hrest
      · exact (List.cons.inj hrest).2
      · exact hrest

end IsOrder

/-! ## Insertion -/

theorem perm_insertFromEnd (compare : α → α → Memoized Ordering) (a : α) (as : List α)
    (memo : SubtypeMemo) : ((insertFromEnd compare a as).run memo).1.Perm (a :: as) := by
  induction as generalizing memo with
  | nil => exact .refl _
  | cons b bs ih =>
    rw [insertFromEnd, Memoized.run_bind, Memoized.run_ite]
    split
    · exact ((ih _).cons b).trans (.swap a b bs)
    · exact .refl _

theorem perm_insertAll (compare : α → α → Memoized Ordering) (sorted as : List α)
    (memo : SubtypeMemo) : ((insertAll compare sorted as).run memo).1.Perm (as ++ sorted) := by
  induction as generalizing sorted memo with
  | nil => exact .refl _
  | cons a as ih =>
    rw [insertAll, Memoized.run_bind]
    have hinserted := perm_insertFromEnd compare a sorted memo
    exact (ih _ _).trans ((hinserted.append_left as).trans List.perm_middle)

/-- **Insertion keeps every element**, whatever the comparison. -/
theorem perm_insertionSort (compare : α → α → Memoized Ordering) (as : List α) (memo : SubtypeMemo) :
    ((insertionSort compare as).run memo).1.Perm as := by
  have h := perm_insertAll compare [] as memo
  rw [List.append_nil] at h
  exact (List.reverse_perm _).trans h

section Settling

variable (hcompare : ∀ a b, Settling (compare a b))

include hcompare

theorem settling_insertFromEnd (a : α) (as : List α) : Settling (insertFromEnd compare a as) := by
  induction as with
  | nil => exact .of_pure [a]
  | cons b bs ih =>
    refine (hcompare a b).bind (fun _ => ?_)
    exact .of_ite (ih.bind (fun _ => .of_pure _)) (.of_pure _)

theorem settling_insertAll (sorted as : List α) : Settling (insertAll compare sorted as) := by
  induction as generalizing sorted with
  | nil => exact .of_pure sorted
  | cons a as ih => exact (settling_insertFromEnd hcompare a sorted).bind ih

theorem settling_insertionSort (as : List α) : Settling (insertionSort compare as) :=
  (settling_insertAll hcompare [] as).bind (fun _ => .of_pure _)

end Settling

theorem mem_of_run_insertFromEnd (hrun : (insertFromEnd compare a as).run memo = (out, later))
    {b : α} : b ∈ out ↔ b = a ∨ b ∈ as := by
  have hperm := perm_insertFromEnd compare a as memo
  rw [hrun] at hperm
  exact hperm.mem_iff.trans List.mem_cons

section Ordered

variable (h : Answers compare memo cmp all) (horder : IsOrder cmp all)

include h horder

/-- An element put in its place leaves the elements in order, and it stands behind those that are level
with it. -/
theorem run_insertFromEnd (ha : a ∈ all) (has : ∀ b ∈ as, b ∈ all)
    (hsorted : as.Pairwise (fun a b => (cmp b a).isLE = true)) :
    ∃ out, (insertFromEnd compare a as).run memo = (out, memo) ∧
      out.Pairwise (fun a b => (cmp b a).isLE = true) ∧
      ∀ c ∈ all, out.filter (fun b => cmp c b = .eq) = (a :: as).filter (fun b => cmp c b = .eq) := by
  induction as with
  | nil => exact ⟨[a], rfl, List.pairwise_singleton _ a, fun _ _ => rfl⟩
  | cons b bs ih =>
    obtain ⟨hfirst, hrest⟩ := List.pairwise_cons.mp hsorted
    obtain ⟨hb, hbs⟩ := List.forall_mem_cons.mp has
    rw [insertFromEnd, Memoized.run_bind, h a ha b hb, Memoized.run_ite]
    split
    · next hlt =>
      have hlt : cmp a b = .lt := hlt
      obtain ⟨out, hrun, hout, hlevel⟩ := ih hbs hrest
      refine ⟨b :: out, by rw [Memoized.run_bind, hrun]; rfl,
        List.pairwise_cons.mpr ⟨?_, hout⟩, fun c hc => ?_⟩
      · intro x hx
        rcases (mem_of_run_insertFromEnd hrun).mp hx with rfl | hx
        · exact Ordering.isLE_of_eq_lt hlt
        · exact hfirst x hx
      · -- the two that change places are not level
        have hnot : ¬(cmp c a = .eq ∧ cmp c b = .eq) := by
          rintro ⟨hca, hcb⟩
          rw [horder.eq_of_eq_eq ha hb hc hca hcb] at hlt
          cases hlt
        simp only [List.filter_cons, hlevel c hc, decide_eq_true_eq]
        by_cases hca : cmp c a = .eq
        · have hcb : ¬cmp c b = .eq := fun hcb => hnot ⟨hca, hcb⟩
          rw [if_neg hcb, if_neg hcb]
        · rw [if_neg hca, if_neg hca]
    · next hlt =>
      have hba : (cmp b a).isLE = true := horder.isLE_of_ne_lt ha hb hlt
      refine ⟨a :: b :: bs, rfl, List.pairwise_cons.mpr ⟨?_, hsorted⟩, fun _ _ => rfl⟩
      intro x hx
      rcases List.mem_cons.mp hx with rfl | hx
      · exact hba
      · exact horder.trans x (hbs x hx) b hb a ha (hfirst x hx) hba

theorem run_insertAll (has : ∀ a ∈ as, a ∈ all) (hbs : ∀ b ∈ bs, b ∈ all)
    (hsorted : bs.Pairwise (fun a b => (cmp b a).isLE = true)) :
    ∃ out, (insertAll compare bs as).run memo = (out, memo) ∧
      out.Pairwise (fun a b => (cmp b a).isLE = true) ∧
      ∀ c ∈ all, out.filter (fun b => cmp c b = .eq)
        = (as.reverse ++ bs).filter (fun b => cmp c b = .eq) := by
  induction as generalizing bs with
  | nil => exact ⟨bs, rfl, hsorted, fun _ _ => rfl⟩
  | cons a as ih =>
    obtain ⟨ha, has⟩ := List.forall_mem_cons.mp has
    obtain ⟨mid, hrun, hmid, hlevel⟩ := run_insertFromEnd h horder ha hbs hsorted
    have hmem : ∀ b ∈ mid, b ∈ all := by
      intro b hb
      rcases (mem_of_run_insertFromEnd hrun).mp hb with rfl | hb
      · exact ha
      · exact hbs b hb
    obtain ⟨out, hrest, hout, hlevels⟩ := ih has hmem hmid
    refine ⟨out, ?_, hout, fun c hc => ?_⟩
    · rw [insertAll, Memoized.run_bind, hrun]
      exact hrest
    · rw [hlevels c hc, List.filter_append, hlevel c hc, ← List.filter_append, List.reverse_cons,
        List.append_assoc, List.singleton_append]

end Ordered

/-- **Insertion sorts elements** if the comparison orders them. -/
theorem run_insertionSort (h : Answers compare memo cmp as) (horder : IsOrder cmp as) :
    ∃ out, (insertionSort compare as).run memo = (out, memo) ∧ SortedBy cmp as out := by
  have hnil : ∀ b ∈ ([] : List α), b ∈ as := fun b hb => absurd hb List.not_mem_nil
  obtain ⟨out, hrun, hout, hlevel⟩ :=
    run_insertAll h horder (fun a ha => ha) hnil List.Pairwise.nil
  refine ⟨out.reverse, ?_, List.pairwise_reverse.mpr hout, fun a ha => ?_⟩
  · rw [insertionSort, Memoized.run_bind, hrun]
    rfl
  · rw [List.filter_reverse, hlevel a ha, List.append_nil, List.filter_reverse, List.reverse_reverse]

/-! ## Sorters -/

namespace Sorter

/-- Insertion never breaks off. -/
def insertion : Sorter α where
  run compare as := do return some (← insertionSort compare as)
  perm {compare as memo out} h := by
    obtain rfl : ((insertionSort compare as).run memo).1 = out := Option.some.inj h
    exact perm_insertionSort compare as memo
  sorts h horder := by
    obtain ⟨out, hrun, hout⟩ := run_insertionSort h horder
    exact ⟨out, by rw [Memoized.run_bind, hrun]; rfl, hout⟩

/-- Insertion that is broken off unless the comparison orders the elements. -/
def strict : Sorter α where
  run compare as := ⟨fun memo =>
    if IsOrder (fun a b => ((compare a b).run memo).1) as then (insertion.run compare as).run memo
    else (none, memo)⟩
  perm {compare as memo out} h := by
    dsimp only at h
    split at h
    · exact insertion.perm h
    · cases h
  sorts {compare memo cmp as} h horder := by
    have hsame : ∀ a ∈ as, ∀ b ∈ as, ((compare a b).run memo).1 = cmp a b :=
      fun a ha b hb => congrArg Prod.fst (h a ha b hb)
    dsimp only
    rw [if_pos (horder.congr hsame)]
    exact insertion.sorts h horder

theorem strict_run_eq_some (h : ((strict.run compare as).run memo).1 = some out) :
    IsOrder (fun a b => ((compare a b).run memo).1) as := by
  dsimp only [strict] at h
  split at h
  · next horder => exact horder
  · cases h

section Answers

variable (h : Answers compare memo cmp as)

include h

/-- **Every sort gives what insertion gives**, if the comparison orders the elements. -/
theorem run_eq_insertionSort (horder : IsOrder cmp as) (sorter : Sorter α) :
    (sorter.run compare as).run memo = (some ((insertionSort compare as).run memo).1, memo) := by
  obtain ⟨out, hrun, hout⟩ := sorter.sorts h horder
  obtain ⟨out', hrun', hout'⟩ := run_insertionSort h horder
  have hperm : out.Perm as := sorter.perm (by rw [hrun])
  have hperm' : out'.Perm as := by
    have hkept := perm_insertionSort compare as memo
    rwa [hrun'] at hkept
  have hsame : out = out' := by
    refine horder.eq_of_perm (hperm.trans hperm'.symm) (fun a ha => hperm.mem_iff.mp ha)
      hout.inOrder hout'.inOrder (fun c hc => ?_)
    rw [hout.stable c hc, hout'.stable c hc]
  rw [hrun, hrun', hsame]

/-- What comes of sorting by an order is sorted by it. -/
theorem sortedBy_of_run (horder : IsOrder cmp as) {sorter : Sorter α}
    (hrun : ((sorter.run compare as).run memo).1 = some out) : SortedBy cmp as out := by
  obtain ⟨sorted, hsorts, hsorted⟩ := sorter.sorts h horder
  rw [hsorts, Option.some.injEq] at hrun
  exact hrun ▸ hsorted

/-- **No sort breaks off exactly if the comparison orders the elements.** -/
theorem isSome_run_iff :
    (∀ sorter : Sorter α, ((sorter.run compare as).run memo).1.isSome = true) ↔ IsOrder cmp as := by
  constructor
  · intro hall
    obtain ⟨out, hout⟩ := Option.isSome_iff_exists.mp (hall strict)
    exact (strict_run_eq_some hout).congr (fun a ha b hb => (congrArg Prod.fst (h a ha b hb)).symm)
  · intro horder sorter
    obtain ⟨out, hrun, -⟩ := sorter.sorts h horder
    rw [hrun, Option.isSome_some]

end Answers

end Sorter

end Clipboard
