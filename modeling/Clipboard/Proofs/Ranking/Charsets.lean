import Clipboard.Ranking
import Mathlib.Data.List.Nodup

/-!
# Ranking charsets

Charsets are compared by their keys only, and `keyOrder` is a linear order of keys: two keys of one
rank are told apart by their text. Names of one key are level, then, and no others are
(`compareCharsets_eq_eq_iff`). So the keys of sorted names are the same however the names stood
(`charsetKey_sortCharsets_perm`), the worst first is the best first from its end
(`charsetKey_sortCharsets_worst`), and among sorted names those of one key stand together, so that
dropping repeats leaves one of each key (`pairwise_dropRepeats`).
-/

namespace Clipboard.Ranking

variable {d : String} {s : Selection} {a b c x y : String} {names others : List String}

/-! ## Keys -/

/-- Which of two charsets comes first. -/
def compareCharsets (defaultCharset : String) (s : Selection) (a b : String) : Ordering :=
  s.orient (charsetScore defaultCharset a b)

/-- Which of two keys is better: the one of the higher rank, and the lesser text among equals. -/
def keyScore (defaultCharset : String) : String → String → Ordering :=
  compareLex (compareOn (keyRank defaultCharset)) (fun x y => compare y x)

/-- Which of two keys comes first. -/
def keyOrder (defaultCharset : String) (s : Selection) (x y : String) : Ordering :=
  s.orient (keyScore defaultCharset x y)

theorem compareCharsets_eq (d : String) (s : Selection) (a b : String) :
    compareCharsets d s a b = keyOrder d s (charsetKey d a) (charsetKey d b) := rfl

instance : Std.TransCmp (keyScore d) :=
  inferInstanceAs (Std.TransCmp (compareLex (compareOn (keyRank d)) (fun x y => compare y x)))

instance : Std.LawfulEqCmp (keyScore d) where
  compare_self := Std.ReflCmp.compare_self
  eq_of_compare h := (Std.LawfulEqOrd.eq_of_compare (Ordering.then_eq_eq.mp h).2).symm

theorem keyOrder_best (d x y : String) : keyOrder d .best x y = keyScore d y x :=
  Std.OrientedCmp.eq_swap.symm

instance : Std.TransCmp (keyOrder d s) :=
  match s with
  | .worst => inferInstanceAs (Std.TransCmp (keyScore d))
  | .best =>
    { eq_swap := by
        intro x y
        rw [keyOrder_best, keyOrder_best]
        exact Std.OrientedCmp.eq_swap
      isLE_trans := by
        intro x y z hxy hyz
        rw [keyOrder_best] at hxy hyz ⊢
        exact Std.TransCmp.isLE_trans hyz hxy }

instance : Std.LawfulEqCmp (keyOrder d s) :=
  match s with
  | .worst => inferInstanceAs (Std.LawfulEqCmp (keyScore d))
  | .best =>
    { compare_self := Std.ReflCmp.compare_self
      eq_of_compare := by
        intro x y h
        rw [keyOrder_best] at h
        exact (Std.LawfulEqCmp.eq_of_compare h).symm }

/-- **Names are level just if they have one key.** -/
theorem compareCharsets_eq_eq_iff :
    compareCharsets d s a b = .eq ↔ charsetKey d a = charsetKey d b := by
  rw [compareCharsets_eq, Std.LawfulEqCmp.compare_eq_iff_eq]

instance : Std.TransCmp (compareCharsets d s) where
  eq_swap := by
    intro a b
    rw [compareCharsets_eq, compareCharsets_eq]
    exact Std.OrientedCmp.eq_swap
  isLE_trans := by
    intro a b c hab hbc
    rw [compareCharsets_eq] at hab hbc ⊢
    exact Std.TransCmp.isLE_trans hab hbc

/-! ## Sorting -/

theorem sortCharsets_perm (d : String) (s : Selection) (names : List String) :
    (sortCharsets d s names).Perm names := List.mergeSort_perm _ _

/-- None stands before one that comes first. -/
theorem pairwise_sortCharsets (d : String) (s : Selection) (names : List String) :
    (sortCharsets d s names).Pairwise (fun a b => (compareCharsets d s a b).isLE = true) := by
  have hle (a b : String) : (s.orient (charsetScore d a b) != .gt) = true ↔
      (compareCharsets d s a b).isLE = true := by
    rw [compareCharsets]
    cases s.orient (charsetScore d a b) <;> decide
  refine (List.pairwise_mergeSort ?_ ?_ names).imp (fun hab => (hle _ _).mp hab)
  · intro a b c hab hbc
    rw [hle] at hab hbc ⊢
    exact Std.TransCmp.isLE_trans hab hbc
  · intro a b
    have hswap : compareCharsets d s b a = (compareCharsets d s a b).swap := Std.OrientedCmp.eq_swap
    rw [Bool.or_eq_true, hle, hle, hswap]
    cases compareCharsets d s a b <;> decide

/-- The keys of names have one order only. -/
theorem eq_of_sorted_keys (hperm : names.Perm others)
    (hnames : names.Pairwise (fun a b => (compareCharsets d s a b).isLE = true))
    (hothers : others.Pairwise (fun a b => (compareCharsets d s a b).isLE = true)) :
    names.map (charsetKey d) = others.map (charsetKey d) := by
  have hkeys {l : List String}
      (hl : l.Pairwise (fun a b => (compareCharsets d s a b).isLE = true)) :
      (l.map (charsetKey d)).Pairwise (fun x y => (keyOrder d s x y).isLE = true) :=
    List.pairwise_map.mpr hl
  refine List.Perm.eq_of_pairwise ?_ (hkeys hnames) (hkeys hothers) (hperm.map _)
  intro x y _ _ hxy hyx
  exact Std.LawfulEqCmp.eq_of_compare (Std.OrientedCmp.isLE_antisymm hxy hyx)

/-- **However the names stood**, their keys come out in one order. -/
theorem map_charsetKey_sortCharsets (hperm : names.Perm others) :
    (sortCharsets d s names).map (charsetKey d) = (sortCharsets d s others).map (charsetKey d) := by
  have hsame :=
    (sortCharsets_perm d s names).trans (hperm.trans (sortCharsets_perm d s others).symm)
  exact eq_of_sorted_keys hsame (pairwise_sortCharsets d s names) (pairwise_sortCharsets d s others)

/-- **The worst first is the best first from its end**, as far as keys go. -/
theorem map_charsetKey_sortCharsets_worst (d : String) (names : List String) :
    (sortCharsets d .worst names).map (charsetKey d)
      = ((sortCharsets d .best names).map (charsetKey d)).reverse := by
  have hreverse : (sortCharsets d .best names).reverse.Pairwise
      (fun a b => (compareCharsets d .worst a b).isLE = true) := by
    refine List.pairwise_reverse.mpr ((pairwise_sortCharsets d .best names).imp ?_)
    intro a b hab
    rw [compareCharsets_eq, keyOrder_best] at hab
    exact hab
  have hsame : (sortCharsets d .worst names).Perm (sortCharsets d .best names).reverse :=
    (sortCharsets_perm d .worst names).trans
      ((sortCharsets_perm d .best names).symm.trans (List.reverse_perm _).symm)
  rw [← List.map_reverse]
  exact eq_of_sorted_keys hsame (pairwise_sortCharsets d .worst names) hreverse

/-! ## One of each key -/

theorem charsetScore_eq_eq_iff : charsetScore d a b = .eq ↔ charsetKey d a = charsetKey d b := by
  rw [← compareCharsets_eq_eq_iff (s := .worst), compareCharsets, Selection.orient]

theorem dropRepeats_nil (d : String) : dropRepeats d [] = [] := by
  rw [dropRepeats.eq_def]

theorem dropRepeats_singleton (d name : String) : dropRepeats d [name] = [name] := by
  rw [dropRepeats.eq_def]

theorem dropRepeats_of_eq (h : charsetKey d a = charsetKey d b) (names : List String) :
    dropRepeats d (a :: b :: names) = dropRepeats d (a :: names) := by
  rw [dropRepeats.eq_def]
  exact if_pos (charsetScore_eq_eq_iff.mpr h)

theorem dropRepeats_of_ne (h : charsetKey d a ≠ charsetKey d b) (names : List String) :
    dropRepeats d (a :: b :: names) = a :: dropRepeats d (b :: names) := by
  rw [dropRepeats.eq_def]
  exact if_neg (fun heq => h (charsetScore_eq_eq_iff.mp heq))

theorem dropRepeats_sublist (d : String) (names : List String) :
    (dropRepeats d names).Sublist names := by
  induction names using dropRepeats.induct d with
  | case1 =>
    rw [dropRepeats_nil]
  | case2 name =>
    rw [dropRepeats_singleton]
  | case3 a b names heq ih =>
    rw [dropRepeats_of_eq (charsetScore_eq_eq_iff.mp heq)]
    exact ih.trans ((List.sublist_cons_self b names).cons_cons a)
  | case4 a b names hne ih =>
    rw [dropRepeats_of_ne (fun heq => hne (charsetScore_eq_eq_iff.mpr heq))]
    exact ih.cons_cons a

/-- Every key is left. -/
theorem exists_mem_dropRepeats (hname : a ∈ names) :
    ∃ b ∈ dropRepeats d names, charsetKey d b = charsetKey d a := by
  induction names using dropRepeats.induct d generalizing a with
  | case1 => cases hname
  | case2 name =>
    rw [dropRepeats_singleton]
    exact ⟨a, hname, rfl⟩
  | case3 first second names heq ih =>
    have hkeys := charsetScore_eq_eq_iff.mp heq
    rw [dropRepeats_of_eq hkeys]
    rcases List.mem_cons.mp hname with rfl | hname
    · exact ih List.mem_cons_self
    · rcases List.mem_cons.mp hname with rfl | hname
      · obtain ⟨b, hb, hkey⟩ := ih List.mem_cons_self
        exact ⟨b, hb, hkey.trans hkeys⟩
      · exact ih (List.mem_cons_of_mem _ hname)
  | case4 first second names hne ih =>
    rw [dropRepeats_of_ne (fun heq => hne (charsetScore_eq_eq_iff.mpr heq))]
    rcases List.mem_cons.mp hname with rfl | hname
    · exact ⟨a, List.mem_cons_self, rfl⟩
    · obtain ⟨b, hb, hkey⟩ := ih hname
      exact ⟨b, List.mem_cons_of_mem _ hb, hkey⟩

/-- **What is left of sorted names is strictly in order.** -/
theorem pairwise_dropRepeats
    (h : names.Pairwise (fun a b => (compareCharsets d s a b).isLE = true)) :
    (dropRepeats d names).Pairwise (fun a b => compareCharsets d s a b = .lt) := by
  induction names using dropRepeats.induct d with
  | case1 =>
    rw [dropRepeats_nil]
    exact .nil
  | case2 name =>
    rw [dropRepeats_singleton]
    exact List.pairwise_singleton _ name
  | case3 a b names heq ih =>
    rw [dropRepeats_of_eq (charsetScore_eq_eq_iff.mp heq)]
    exact ih (h.sublist ((List.sublist_cons_self b names).cons_cons a))
  | case4 a b names hne ih =>
    obtain ⟨ha, hrest⟩ := List.pairwise_cons.mp h
    obtain ⟨hb, -⟩ := List.pairwise_cons.mp hrest
    have hkeys : charsetKey d a ≠ charsetKey d b := fun heq => hne (charsetScore_eq_eq_iff.mpr heq)
    have hab : compareCharsets d s a b = .lt :=
      (Ordering.isLE_iff_eq_lt_or_eq_eq.mp (ha b List.mem_cons_self)).resolve_right
        (fun heq => hkeys (compareCharsets_eq_eq_iff.mp heq))
    rw [dropRepeats_of_ne hkeys]
    refine List.pairwise_cons.mpr ⟨?_, ih hrest⟩
    intro x hx
    rcases List.mem_cons.mp ((dropRepeats_sublist d (b :: names)).subset hx) with rfl | hx
    · exact hab
    · exact Std.TransCmp.lt_of_lt_of_isLE hab (hb x hx)

/-- The charsets among which those that text is offered in are found. -/
def offeredCharsets (defaultCharset : String) : List String :=
  ["US-ASCII", "ISO-8859-1", "UTF-8", "UTF-16BE", "UTF-16LE", "UTF-16", defaultCharset]

theorem standardCharsets_eq (d : String) :
    standardCharsets d = dropRepeats d (sortCharsets d .best (offeredCharsets d)) := rfl

theorem pairwise_standardCharsets (d : String) :
    (standardCharsets d).Pairwise (fun a b => compareCharsets d .best a b = .lt) := by
  rw [standardCharsets_eq]
  exact pairwise_dropRepeats (pairwise_sortCharsets d .best _)

theorem mem_offeredCharsets (h : a ∈ standardCharsets d) : a ∈ offeredCharsets d := by
  rw [standardCharsets_eq] at h
  exact (sortCharsets_perm d .best _).mem_iff.mp ((dropRepeats_sublist d _).subset h)

/-- No two names that are strictly in order have one key. -/
theorem eq_of_charsetKey_eq
    (h : names.Pairwise (fun a b => compareCharsets d s a b = .lt)) (ha : a ∈ names)
    (hb : b ∈ names) (hkey : charsetKey d a = charsetKey d b) : a = b := by
  have hnodup : (names.map (charsetKey d)).Nodup := by
    refine List.pairwise_map.mpr (h.imp ?_)
    intro x y hxy heq
    rw [compareCharsets_eq_eq_iff.mpr heq] at hxy
    cases hxy
  exact List.inj_on_of_nodup_map hnodup ha hb hkey

theorem existsUnique_standardCharsets (h : a ∈ offeredCharsets d) :
    ∃! b, b ∈ standardCharsets d ∧ charsetKey d b = charsetKey d a := by
  have hsorted : a ∈ sortCharsets d .best (offeredCharsets d) :=
    (sortCharsets_perm d .best _).mem_iff.mpr h
  obtain ⟨b, hb, hkey⟩ := exists_mem_dropRepeats hsorted
  refine ⟨b, ⟨hb, hkey⟩, ?_⟩
  rintro c ⟨hc, hkey'⟩
  exact eq_of_charsetKey_eq (pairwise_standardCharsets d) hc hb (hkey'.trans hkey.symm)

/-- **Charset names are ranked by their keys**, whatever the default charset, and whether or not the
names are of charsets. They are in a total preorder in which those of one key are level and no
others; sorting keeps the names and puts them in that order, the keys in the same one however the
names stood and in the opposite one for the worst first; and text is offered in one charset for each
key, the best first. -/
theorem charsets_ranked (defaultCharset : String) :
    let key := charsetKey defaultCharset
    let order := compareCharsets defaultCharset
    let sort := sortCharsets defaultCharset
    (∀ s a b, order s b a = (order s a b).swap ∧ (order s a b = .eq ↔ key a = key b)) ∧
      (∀ s a b c, (order s a b).isLE = true → (order s b c).isLE = true →
        (order s a c).isLE = true) ∧
      (∀ s names, (sort s names).Perm names ∧
        (sort s names).Pairwise (fun a b => (order s a b).isLE = true)) ∧
      (∀ s names others, names.Perm others → (sort s names).map key = (sort s others).map key) ∧
      (∀ names, (sort .worst names).map key = ((sort .best names).map key).reverse) ∧
      (standardCharsets defaultCharset).Pairwise (fun a b => order .best a b = .lt) ∧
      (∀ name ∈ standardCharsets defaultCharset, name ∈ offeredCharsets defaultCharset) ∧
      ∀ name ∈ offeredCharsets defaultCharset,
        ∃! standard, standard ∈ standardCharsets defaultCharset ∧ key standard = key name := by
  intro key order sort
  refine ⟨?_, ?_, ?_, ?_, ?_, pairwise_standardCharsets _, ?_, ?_⟩
  · intro s a b
    exact ⟨Std.OrientedCmp.eq_swap, compareCharsets_eq_eq_iff⟩
  · intro s a b c hab hbc
    exact Std.TransCmp.isLE_trans hab hbc
  · intro s names
    exact ⟨sortCharsets_perm _ s names, pairwise_sortCharsets _ s names⟩
  · intro s names others hperm
    exact map_charsetKey_sortCharsets hperm
  · exact map_charsetKey_sortCharsets_worst defaultCharset
  · intro name hname
    exact mem_offeredCharsets hname
  · intro name hname
    exact existsUnique_standardCharsets hname

/-- Two spellings of one charset, two names that are no charsets, and one that goes by its spelling.
-/
theorem charsets_ranked_windows1252 :
    let key := charsetKey "windows-1252"
    let order := compareCharsets "windows-1252"
    let names := ["utf8", "X-ONE", "CP1252", "latin1", "UTF-8", "X-TWO"]
    let others := ["X-TWO", "UTF-8", "latin1", "CP1252", "X-ONE", "utf8"]
    names.Perm others ∧
      (order .best "utf8" "CP1252").isLE = true ∧ (order .best "CP1252" "X-ONE").isLE = true ∧
      (order .best "utf8" "X-ONE").isLE = true ∧ order .best "X-ONE" "X-TWO" = .eq ∧
      (sortCharsets "windows-1252" .best names).map key
        = (sortCharsets "windows-1252" .best others).map key ∧
      (sortCharsets "windows-1252" .worst names).map key
        = ((sortCharsets "windows-1252" .best names).map key).reverse ∧
      ∃! standard, standard ∈ standardCharsets "windows-1252" ∧ key standard = "windows-1252" := by
  intro key order names others
  have hperm : names.Perm others := by decide
  have hutf8 : (order .best "utf8" "CP1252").isLE = true := by decide +kernel
  have hlatin : (order .best "CP1252" "X-ONE").isLE = true := by decide +kernel
  obtain ⟨hlevel, htrans, -, hsort, hworst, -, -, hstandard⟩ := charsets_ranked "windows-1252"
  refine ⟨hperm, hutf8, hlatin, htrans .best _ _ _ hutf8 hlatin, ?_, hsort .best _ _ hperm,
    hworst names, ?_⟩
  · exact (hlevel .best _ _).2.mpr (by decide +kernel)
  · have hkey : charsetKey "windows-1252" "windows-1252" = "windows-1252" := by decide +kernel
    have hdefault := hstandard "windows-1252" (by decide)
    rwa [hkey] at hdefault

end Clipboard.Ranking
