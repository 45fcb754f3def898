import Clipboard.Proofs.Ranking.Antisymmetry
import Mathlib.Data.List.Nodup

/-!
# Sorting by a comparator

If flavors are scored as some comparator says, and nothing is decided by that (`Scores`), sorting puts
them in its order (`run_sort`). Where the comparator takes only flavors of one text for equal,
flavors of different texts have one order only (`eq_of_sorted`). Then it does not matter how they stood
before they were sorted (`run_sort_perm`), the worst-first order is the best-first order from its end
(`run_sort_worst`), and the best flavor is the one that comes first (`run_best?`).
-/

namespace Clipboard.FlavorRanker

theorem orient_eq_eq_iff {s : Selection} {o : Ordering} : s.orient o = .eq ↔ o = .eq := by
  cases s <;> cases o <;> decide

/-- The flavors are scored as `cmp` says, with nothing left to decide. -/
def Scores (r : FlavorRanker) (memo : SubtypeMemo) (S : Flavor → Prop)
    (cmp : Flavor → Flavor → Ordering) : Prop :=
  ∀ a b, S a → S b → (r.score a b).run memo = (cmp a b, memo)

/-- A flavor may stand before another. -/
def Before (s : Selection) (cmp : Flavor → Flavor → Ordering) (a b : Flavor) : Prop :=
  (s.orient (cmp a b)).isLE = true

variable {r : FlavorRanker} {memo later : SubtypeMemo} {S : Flavor → Prop}
  {cmp : Flavor → Flavor → Ordering} {s : Selection} {a b c f : Flavor} {fs gs : List Flavor}

theorem run_compare (h : r.Scores memo S cmp) (ha : S a) (hb : S b) :
    (r.compare a b).run memo = (r.selection.orient (cmp a b), memo) := by
  rw [compare, Memoized.run_bind, h a b ha hb]
  rfl

theorem answers_compare (h : r.Scores memo S cmp) (hfs : ∀ f ∈ fs, S f) :
    Answers r.compare memo (fun a b => r.selection.orient (cmp a b)) fs :=
  fun _ ha _ hb => run_compare h (hfs _ ha) (hfs _ hb)

theorem isLE_compare_iff (h : r.Scores memo S cmp) (ha : S a) (hb : S b) :
    ((r.compare a b).run memo).1.isLE = true ↔ Before r.selection cmp a b := by
  rw [run_compare h ha hb]
  rfl

theorem before_worst_iff : Before .worst cmp a b ↔ (cmp a b).isLE = true := Iff.rfl

theorem before_of_eq_lt (h : s.orient (cmp a b) = .lt) : Before s cmp a b := by
  rw [Before, h]
  rfl

variable [Std.TransCmp cmp]

theorem before_best_iff : Before .best cmp a b ↔ (cmp b a).isLE = true := by
  have hswap : cmp b a = (cmp a b).swap := Std.OrientedCmp.eq_swap
  rw [hswap]
  rfl

theorem Before.refl (a : Flavor) : Before s cmp a a := by
  have hself : cmp a a = .eq := Std.ReflCmp.compare_self
  rw [Before, hself]
  cases s <;> rfl

theorem Before.trans (hab : Before s cmp a b) (hbc : Before s cmp b c) : Before s cmp a c := by
  cases s with
  | best =>
    rw [before_best_iff] at hab hbc ⊢
    exact Std.TransCmp.isLE_trans hbc hab
  | worst =>
    rw [before_worst_iff] at hab hbc ⊢
    exact Std.TransCmp.isLE_trans hab hbc

/-- Flavors either of which may stand before the other are equal for the comparator. -/
theorem eq_eq_of_before (hab : Before s cmp a b) (hba : Before s cmp b a) : cmp a b = .eq := by
  have hle : (cmp a b).isLE = true ∧ (cmp b a).isLE = true := by
    cases s with
    | best => exact ⟨before_best_iff.mp hba, before_best_iff.mp hab⟩
    | worst => exact ⟨hab, hba⟩
  have hswap : cmp b a = (cmp a b).swap := Std.OrientedCmp.eq_swap
  rw [hswap] at hle
  revert hle
  cases cmp a b <;> decide

/-! ## Sorting -/

/-- A comparator orders flavors, the best or the worst first. -/
theorem isOrder_orient (s : Selection) (fs : List Flavor) :
    IsOrder (fun a b => s.orient (cmp a b)) fs where
  swap a _ b _ := by
    have hswap : cmp b a = (cmp a b).swap := Std.OrientedCmp.eq_swap
    rw [hswap, orient_swap]
  trans _ _ _ _ _ _ hab hbc := Before.trans hab hbc

/-- **Sorting puts flavors in the order of the comparator.** -/
theorem run_sort (h : r.Scores memo S cmp) (hfs : ∀ f ∈ fs, S f) :
    ∃ out, (r.sort fs).run memo = (out, memo) ∧ out.Perm fs ∧
      out.Pairwise (Before r.selection cmp) := by
  obtain ⟨out, hrun, hout⟩ :=
    run_insertionSort (answers_compare h hfs) (isOrder_orient r.selection fs)
  have hperm := perm_insertionSort r.compare fs memo
  rw [hrun] at hperm
  exact ⟨out, hrun, hperm, hout.inOrder⟩

/-- The best first, none stands before a better one. -/
theorem pairwise_sort_best {P : Flavor → Flavor → Prop} (h : r.Scores memo S cmp)
    (hworse : ∀ a b, S a → S b → P a b → cmp a b = .lt) (hfs : ∀ f ∈ fs, S f) :
    (({ r with selection := .best }.sort fs).run memo).1.Pairwise (fun a b => ¬P a b) := by
  have hscores : { r with selection := .best }.Scores memo S cmp := h
  obtain ⟨out, hrun, hperm, hsorted⟩ := run_sort hscores hfs
  have hout : ∀ f ∈ out, S f := fun f hf => hfs f (hperm.mem_iff.mp hf)
  rw [hrun]
  refine hsorted.imp_of_mem ?_
  intro a b ha hb hab hP
  have hgt : cmp b a = .gt := Std.OrientedCmp.gt_of_lt (hworse a b (hout a ha) (hout b hb) hP)
  have hle : (cmp b a).isLE = true := before_best_iff.mp hab
  rw [hgt] at hle
  cases hle

/-! ## The best -/

/-- The best flavor is one of them, and it may stand before them all. -/
theorem run_bestFrom (h : r.Scores memo S cmp) (hf : S f) (hgs : ∀ g ∈ gs, S g) :
    ∃ best, (r.bestFrom f gs).run memo = (best, memo) ∧ best ∈ f :: gs ∧
      ∀ g ∈ f :: gs, Before .best cmp best g := by
  induction gs generalizing f with
  | nil => exact ⟨f, rfl, List.mem_cons_self, by simpa using Before.refl f⟩
  | cons g gs ih =>
    have hg := hgs g List.mem_cons_self
    have hgs : ∀ x ∈ gs, S x := fun x hx => hgs x (List.mem_cons_of_mem g hx)
    rw [bestFrom, Memoized.run_bind, h f g hf hg, Memoized.run_ite]
    split
    · next hgt =>
      have hgt : cmp f g = .gt := hgt
      have hfg : Before .best cmp f g := before_of_eq_lt (by rw [hgt]; rfl)
      obtain ⟨best, hrun, hmem, hbest⟩ := ih hf hgs
      refine ⟨best, hrun, ?_, ?_⟩
      · rcases List.mem_cons.mp hmem with rfl | hmem
        · exact List.mem_cons_self
        · exact List.mem_cons_of_mem f (List.mem_cons_of_mem g hmem)
      · intro x hx
        rcases List.mem_cons.mp hx with rfl | hx
        · exact hbest x List.mem_cons_self
        · rcases List.mem_cons.mp hx with rfl | hx
          · exact (hbest f List.mem_cons_self).trans hfg
          · exact hbest x (List.mem_cons_of_mem f hx)
    · next hgt =>
      have hgt : cmp f g ≠ .gt := hgt
      have hgf : Before .best cmp g f := before_best_iff.mpr (Ordering.isLE_iff_ne_gt.mpr hgt)
      obtain ⟨best, hrun, hmem, hbest⟩ := ih hg hgs
      refine ⟨best, hrun, List.mem_cons_of_mem f hmem, ?_⟩
      intro x hx
      rcases List.mem_cons.mp hx with rfl | hx
      · exact (hbest g List.mem_cons_self).trans hgf
      · exact hbest x hx

/-! ## One order -/

section Distinct

variable (hlast : ∀ a b, cmp a b = .eq → a.toString = b.toString)
  (hdistinct : (fs.map Flavor.toString).Nodup)

include hlast hdistinct

theorem eq_of_before (ha : a ∈ fs) (hb : b ∈ fs) (hab : Before s cmp a b) (hba : Before s cmp b a) :
    a = b :=
  List.inj_on_of_nodup_map hdistinct ha hb (hlast a b (eq_eq_of_before hab hba))

/-- Flavors of different texts have one order only. -/
theorem eq_of_sorted (hperm : fs.Perm gs) (hfs : fs.Pairwise (Before s cmp))
    (hgs : gs.Pairwise (Before s cmp)) : fs = gs := by
  refine List.Perm.eq_of_pairwise ?_ hfs hgs hperm
  intro a b ha hb hab hba
  exact eq_of_before hlast hdistinct ha (hperm.mem_iff.mpr hb) hab hba

/-- **It does not matter how the flavors stood.** -/
theorem run_sort_perm (h : r.Scores memo S cmp) (hfs : ∀ f ∈ fs, S f) (hperm : fs.Perm gs) :
    (r.sort fs).run memo = (r.sort gs).run memo := by
  have hgs : ∀ g ∈ gs, S g := fun g hg => hfs g (hperm.mem_iff.mpr hg)
  obtain ⟨out, hrun, hout, hsorted⟩ := run_sort h hfs
  obtain ⟨out', hrun', hout', hsorted'⟩ := run_sort h hgs
  have hnodup : (out.map Flavor.toString).Nodup := (hout.map _).nodup_iff.mpr hdistinct
  have hsame : out.Perm out' := hout.trans (hperm.trans hout'.symm)
  rw [hrun, hrun', eq_of_sorted hlast hnodup hsame hsorted hsorted']

/-- **The worst-first order is the best-first order from its end.** -/
theorem run_sort_worst (h : r.Scores memo S cmp) (hfs : ∀ f ∈ fs, S f) :
    ({ r with selection := .worst }.sort fs).run memo
      = ((({ r with selection := .best }.sort fs).run memo).1.reverse, memo) := by
  have hscores (s : Selection) : { r with selection := s }.Scores memo S cmp := h
  obtain ⟨best, hbest, hpermBest, hsortedBest⟩ := run_sort (hscores .best) hfs
  obtain ⟨worst, hworst, hpermWorst, hsortedWorst⟩ := run_sort (hscores .worst) hfs
  have hreverse : best.reverse.Pairwise (Before .worst cmp) :=
    List.pairwise_reverse.mpr (hsortedBest.imp before_best_iff.mp)
  have hnodup : (worst.map Flavor.toString).Nodup := (hpermWorst.map _).nodup_iff.mpr hdistinct
  have hsame : worst.Perm best.reverse :=
    hpermWorst.trans (hpermBest.symm.trans (List.reverse_perm best).symm)
  rw [hbest, hworst, eq_of_sorted hlast hnodup hsame hsortedWorst hreverse]

/-- **The best flavor is the one that comes first.** -/
theorem run_best? (h : r.Scores memo S cmp) (hfs : ∀ f ∈ fs, S f) :
    (r.best? fs).run memo = ((({ r with selection := .best }.sort fs).run memo).1.head?, memo) := by
  have hscores : { r with selection := .best }.Scores memo S cmp := h
  obtain ⟨out, hrun, hperm, hsorted⟩ := run_sort hscores hfs
  rw [hrun]
  cases fs with
  | nil =>
    rw [List.perm_nil.mp hperm]
    rfl
  | cons f fs =>
    obtain ⟨best, hbest, hmem, hfirst⟩ :=
      run_bestFrom h (hfs f List.mem_cons_self) (fun g hg => hfs g (List.mem_cons_of_mem f hg))
    have hrunBest : (r.best? (f :: fs)).run memo = (some best, memo) := by
      rw [best?, Memoized.run_bind, hbest]
      rfl
    rw [hrunBest]
    cases out with
    | nil => cases hperm.symm.eq_nil
    | cons g out =>
      have hg : g ∈ f :: fs := hperm.mem_iff.mp List.mem_cons_self
      have hgbest : Before .best cmp g best := by
        rcases List.mem_cons.mp (hperm.mem_iff.mpr hmem) with rfl | hout
        · exact Before.refl best
        · exact (List.pairwise_cons.mp hsorted).1 best hout
      rw [eq_of_before hlast hdistinct hmem hg (hfirst g hg) hgbest]
      rfl

end Distinct

end Clipboard.FlavorRanker
