import Clipboard.Proofs.Ranking.Sorting

/-!
# Flavors that rank consistently

Of arbitrary flavors each may come before the next one in a circle: a comparison goes by other keys
if both flavors are text than if not, and of texts without a rank one may have keys that the other
has not. Flavors none of which is text are all compared by the same keys, though (`objectScore`). So
are texts of ranked MIME types, since two of one rank have one MIME type, and the subtype of both
takes a charset or that of neither does (`textOrder_eq`).

Both chains of keys are comparators, by instances for each of their parts. `ranks_homogeneous` says
what follows for comparing and sorting flavors that are `Homogeneous`.
-/

namespace Clipboard

namespace Ranking

variable {memo : SubtypeMemo} {a b f : Flavor} {cmp : Flavor → Flavor → Ordering}

/-! ## Comparators -/

instance {α : Type} (rank : α → Nat) : Std.TransCmp (byRank rank) :=
  inferInstanceAs (Std.TransCmp (compareOn rank))

instance (defaultCharset : String) : Std.TransCmp (charsetScore defaultCharset) :=
  inferInstanceAs (Std.TransCmp (compareLex
    (compareOn fun name => keyRank defaultCharset (charsetKey defaultCharset name))
    fun a b => compareOn (charsetKey defaultCharset) b a))

instance : Std.TransCmp objectScore :=
  inferInstanceAs (Std.TransCmp (compareLex
    (compareOn fun f : Flavor => rankOrLast ["application"] f.mime.primary)
    (compareLex
      (compareOn fun f : Flavor => rankOrFirst objectBases f.mime.base)
      (compareOn fun f : Flavor => rankOrLast objectRanks f.representation))))

/-- A comparator, and the texts of the flavors among those that it takes for equal. -/
def thenText (cmp : Flavor → Flavor → Ordering) : Flavor → Flavor → Ordering :=
  compareLex cmp (compareOn Flavor.toString)

instance [Std.TransCmp cmp] : Std.TransCmp (thenText cmp) :=
  inferInstanceAs (Std.TransCmp (compareLex cmp (compareOn Flavor.toString)))

theorem toString_eq_of_thenText (h : thenText cmp a b = .eq) : a.toString = b.toString :=
  Std.LawfulEqOrd.eq_of_compare (Ordering.then_eq_eq.mp h).2

/-- Whether the subtype of a flavor takes a charset by these decisions. -/
def takesCharset (memo : SubtypeMemo) (f : Flavor) : Bool := memo.find? f.mime.subtype = some true

/-- The charset of a text that has one, and the default one for any other. -/
def rankedCharset (memo : SubtypeMemo) (c : TextClassifier) (f : Flavor) : String :=
  if takesCharset memo f then f.charset?.getD c.defaultCharset else c.defaultCharset

/-- The order of texts, as one chain of keys: those that a text does not have are the same for all
that do not have them. -/
def textOrder (memo : SubtypeMemo) (c : TextClassifier) (defaultCharset : String) :
    Flavor → Flavor → Ordering :=
  compareLex (compareOn fun f => rankOrLast textBases f.mime.base) <|
    compareLex
      (compareOn fun f => if takesCharset memo f then rankOrLast decodedRanks f.representation else 0) <|
      compareLex
        (fun a b => charsetScore defaultCharset (rankedCharset memo c a) (rankedCharset memo c b)) <|
        compareOn fun f => rankOrLast encodedRanks f.representation

instance (c : TextClassifier) (defaultCharset : String) :
    Std.TransCmp fun a b : Flavor =>
      charsetScore defaultCharset (rankedCharset memo c a) (rankedCharset memo c b) where
  eq_swap := Std.OrientedCmp.eq_swap
  isLE_trans := Std.TransCmp.isLE_trans

instance (c : TextClassifier) (defaultCharset : String) :
    Std.TransCmp (textOrder memo c defaultCharset) := by
  unfold textOrder
  infer_instance

/-! ## Scores of texts -/

variable {c : TextClassifier} {defaultCharset : String} {takes : Bool}

theorem IsTextBy.takesCharset_eq (h : IsTextBy memo f takes) : takesCharset memo f = takes := by
  rw [takesCharset, h.known]
  cases takes <;> rfl

/-- Texts whose subtypes both take a charset, or both take none, have the same keys. -/
theorem textOrder_eq (ha : takesCharset memo a = takes) (hb : takesCharset memo b = takes) :
    textOrder memo c defaultCharset a b
      = (byRank (rankOrLast textBases) a.mime.base b.mime.base).then
          (equalBaseScore c defaultCharset takes takes a b) := by
  have hself : charsetScore defaultCharset c.defaultCharset c.defaultCharset = .eq :=
    Std.ReflCmp.compare_self
  cases takes with
  | true => simp [textOrder, compareLex, compareOn, rankedCharset, ha, hb, equalBaseScore, byRank,
      Ordering.then_assoc]
  | false => simp [textOrder, compareLex, compareOn, rankedCharset, ha, hb, equalBaseScore, byRank,
      hself]

/-- MIME types that have different ranks decide. -/
theorem textOrder_of_ne (h : byRank (rankOrLast textBases) a.mime.base b.mime.base ≠ .eq) :
    textOrder memo c defaultCharset a b = byRank (rankOrLast textBases) a.mime.base b.mime.base := by
  unfold textOrder compareLex
  show (byRank (rankOrLast textBases) a.mime.base b.mime.base).then _ = _
  revert h
  cases byRank (rankOrLast textBases) a.mime.base b.mime.base with
  | eq => exact fun h => absurd rfl h
  | lt => exact fun _ => rfl
  | gt => exact fun _ => rfl

/-- Texts of ranked MIME types are scored in that order. -/
theorem run_textScore_ranked (hne : a ≠ b)
    (ha : (TextClassifier.isText a).run memo = (true, memo))
    (hb : (TextClassifier.isText b).run memo = (true, memo)) (hranked : a.mime.base ∈ textBases) :
    (textScore c defaultCharset a b).run memo = (textOrder memo c defaultCharset a b, memo) := by
  have hdecided (h : byRank (rankOrLast textBases) a.mime.base b.mime.base ≠ .eq) :
      (textScore c defaultCharset a b).run memo = (textOrder memo c defaultCharset a b, memo) := by
    rw [textScore, run_thenAsk_of_ne h, textOrder_of_ne h]
  rcases isTextBy_or_byRank_ne hne ha hb with ⟨takesA, takesB, ha, hb⟩ | hranks
  · by_cases heq : byRank (rankOrLast textBases) a.mime.base b.mime.base = .eq
    · have hbase : a.mime.base = b.mime.base := by
        rcases eq_of_rankOrLast_eq (Nat.compare_eq_eq.mp heq) with hsame | ⟨hunranked, -⟩
        · exact hsame
        · exact absurd hranked hunranked
      have hknown := ha.known
      rw [subtype_eq_of_base_eq ha hb hbase, hb.known, Option.some.injEq] at hknown
      subst hknown
      rw [run_textScore ha hb, textOrder_eq ha.takesCharset_eq hb.takesCharset_eq]
    · exact hdecided heq
  · exact hdecided hranks

/-! ## Flavors that are all text, or none of them -/

/-- None of the flavors is text, or all of them are and have a MIME type with a rank. -/
inductive Homogeneous (memo : SubtypeMemo) (S : Flavor → Prop) : Prop where
  | objects (h : ∀ f, S f → ((TextClassifier.isText f).run memo).1 = false)
  | texts (h : ∀ f, S f → ((TextClassifier.isText f).run memo).1 = true ∧ f.mime.base ∈ textBases)

/-- Text in bytes stands before text in characters, of one MIME type that takes a charset. -/
structure Misplaced (memo : SubtypeMemo) (a b : Flavor) : Prop where
  text : ((TextClassifier.isText a).run memo).1 = true
  base : a.mime.base = b.mime.base
  takes : takesCharset memo a = true
  encoded : a.representation.isEncodedText = true
  decoded : b.representation.isDecodedText = true

/-- Among texts of one MIME type that takes a charset, those in characters are better. -/
theorem textOrder_of_misplaced (h : Misplaced memo a b)
    (ha : (TextClassifier.isText a).run memo = (true, memo))
    (hb : (TextClassifier.isText b).run memo = (true, memo)) :
    textOrder memo c defaultCharset a b = .lt := by
  rcases isTextBy_of_run_isText ha with rfl | ⟨takesA, ha⟩
  · exact absurd h.encoded (by decide)
  rcases isTextBy_of_run_isText hb with rfl | ⟨takesB, hb⟩
  · exact absurd h.base (base_ne_string ha)
  have htakes : takesCharset memo b = true := by
    rw [takesCharset, ← subtype_eq_of_base_eq ha hb h.base]
    exact h.takes
  have hnot : a.representation ∉ decodedRanks := by
    intro hmem
    have hencoded := h.encoded
    rw [Representation.not_isEncodedText_of_isDecodedText (mem_decodedRanks_iff.mp hmem)] at hencoded
    cases hencoded
  have hbetter : byRank (rankOrLast decodedRanks) b.representation a.representation = .gt :=
    byRank_eq_gt (mem_decodedRanks_iff.mpr h.decoded) hnot
  have hsame : byRank (rankOrLast textBases) b.mime.base b.mime.base = .eq :=
    Std.ReflCmp.compare_self
  rw [textOrder_eq h.takes htakes, h.base, hsame, equalBaseScore, if_pos rfl,
    byRank_swap _ b.representation, hbetter]
  rfl

end Ranking

namespace FlavorRanker

open Ranking (Homogeneous Misplaced objectScore textOrder thenText)

variable {r : FlavorRanker} {memo : SubtypeMemo} {S : Flavor → Prop} {a b : Flavor}

theorem run_score_self (cmp : Flavor → Flavor → Ordering) [Std.TransCmp cmp] (a : Flavor) :
    (r.score a a).run memo = (cmp a a, memo) := by
  have hself : cmp a a = .eq := Std.ReflCmp.compare_self
  rw [score, if_pos rfl, hself]
  rfl

theorem scores_objects (hcovers : ∀ f, S f → memo.Covers f)
    (h : ∀ f, S f → ((TextClassifier.isText f).run memo).1 = false) :
    r.Scores memo S (thenText objectScore) := by
  intro a b ha hb
  by_cases hne : a = b
  · subst hne
    exact run_score_self _ a
  · have hnot : (Ranking.areText a b).run memo = (false, memo) := by
      rw [Ranking.areText, Memoized.run_bind, Ranking.run_isText_of_covers (hcovers a ha), h a ha]
      rfl
    rw [score, if_neg hne, Memoized.run_bind, hnot]
    rfl

theorem scores_texts (hcovers : ∀ f, S f → memo.Covers f)
    (h : ∀ f, S f → ((TextClassifier.isText f).run memo).1 = true ∧
      f.mime.base ∈ Ranking.textBases) :
    r.Scores memo S (thenText (textOrder memo r.classifier r.defaultCharset)) := by
  intro a b ha hb
  by_cases hne : a = b
  · subst hne
    exact run_score_self _ a
  · have htext (f : Flavor) (hf : S f) : (TextClassifier.isText f).run memo = (true, memo) := by
      rw [Ranking.run_isText_of_covers (hcovers f hf), (h f hf).1]
    have hkeyed : (Ranking.textScore r.classifier r.defaultCharset a b).run memo
        = (textOrder memo r.classifier r.defaultCharset a b, memo) :=
      Ranking.run_textScore_ranked hne (htext a ha) (htext b hb) (h a ha).2
    rw [score, if_neg hne, Memoized.run_bind, Ranking.run_areText (htext a ha) (htext b hb),
      if_pos rfl, Memoized.run_bind, hkeyed]
    rfl

/-- Flavors that are homogeneous are scored by one comparator. -/
theorem exists_scores (hcovers : ∀ f, S f → memo.Covers f) (h : Homogeneous memo S) :
    ∃ cmp : Flavor → Flavor → Ordering, Std.TransCmp cmp ∧ r.Scores memo S cmp ∧
      (∀ a b, cmp a b = .eq → a.toString = b.toString) ∧
      ∀ a b, S a → S b → Misplaced memo a b → cmp a b = .lt := by
  cases h with
  | objects h =>
    refine ⟨_, inferInstance, scores_objects hcovers h, fun _ _ => Ranking.toString_eq_of_thenText, ?_⟩
    intro a b ha _ hab
    have htext := hab.text
    rw [h a ha] at htext
    cases htext
  | texts h =>
    refine ⟨_, inferInstance, scores_texts hcovers h, fun _ _ => Ranking.toString_eq_of_thenText, ?_⟩
    intro a b ha hb hab
    have htext (f : Flavor) (hf : S f) : (TextClassifier.isText f).run memo = (true, memo) := by
      rw [Ranking.run_isText_of_covers (hcovers f hf), (h f hf).1]
    have hworse : textOrder memo r.classifier r.defaultCharset a b = .lt :=
      Ranking.textOrder_of_misplaced hab (htext a ha) (htext b hb)
    show (textOrder memo r.classifier r.defaultCharset a b).then _ = .lt
    rw [hworse]
    rfl

/-- The comparison orders flavors that are homogeneous, so that every sort puts them in the order that
insertion does. -/
theorem run_sortBy (r : FlavorRanker) (hcovers : ∀ f, S f → memo.Covers f) (h : Homogeneous memo S)
    {fs : List Flavor} (hfs : ∀ f ∈ fs, S f) (sorter : Sorter Flavor) :
    (r.sortBy sorter fs).run memo = (some ((r.sort fs).run memo).1, memo) := by
  obtain ⟨cmp, htrans, hscores, -, -⟩ := exists_scores (r := r) hcovers h
  exact Sorter.run_eq_insertionSort (answers_compare hscores hfs)
    (isOrder_orient r.selection fs) sorter

/-- **Flavors that are homogeneous are ranked by a total preorder**, once their subtypes are known: no
comparison decides anything, flavors that change places compare the other way round, comparisons are
transitive, and only flavors of one text are equal. Sorting puts them in that order. Flavors of
different texts are sorted in one way only, which is the other way round for the worst first, and the
best of them comes first. Text in characters comes before text in bytes, where the MIME type takes a
charset. -/
theorem ranks_homogeneous (r : FlavorRanker) (hcovers : ∀ f, S f → memo.Covers f)
    (h : Homogeneous memo S) :
    let order (a b : Flavor) : Ordering := ((r.compare a b).run memo).1
    let best : FlavorRanker := { r with selection := .best }
    let worst : FlavorRanker := { r with selection := .worst }
    (∀ a b, S a → S b → (r.compare a b).run memo = (order a b, memo) ∧
      order b a = (order a b).swap ∧ (order a b = .eq → a.toString = b.toString)) ∧
    (∀ a b c, S a → S b → S c → (order a b).isLE = true → (order b c).isLE = true →
      (order a c).isLE = true) ∧
    (∀ fs : List Flavor, (∀ f ∈ fs, S f) → ∃ out, (r.sort fs).run memo = (out, memo) ∧
      out.Perm fs ∧ out.Pairwise (fun a b => (order a b).isLE = true)) ∧
    (∀ fs : List Flavor, (∀ f ∈ fs, S f) → (fs.map Flavor.toString).Nodup →
      (∀ gs, fs.Perm gs → (r.sort fs).run memo = (r.sort gs).run memo) ∧
      (worst.sort fs).run memo = (((best.sort fs).run memo).1.reverse, memo) ∧
      (r.best? fs).run memo = (((best.sort fs).run memo).1.head?, memo)) ∧
    ∀ fs : List Flavor, (∀ f ∈ fs, S f) →
      ((best.sort fs).run memo).1.Pairwise (fun a b => ¬Misplaced memo a b) := by
  intro order best worst
  obtain ⟨cmp, htrans, hscores, hlast, hmisplaced⟩ := exists_scores (r := r) hcovers h
  refine ⟨?_, ?_, ?_, ?_, ?_⟩
  · intro a b ha hb
    have hab := run_compare hscores ha hb
    have hba := run_compare hscores hb ha
    have hswap : cmp b a = (cmp a b).swap := Std.OrientedCmp.eq_swap
    simp only [order, hab, hba, hswap, orient_swap, true_and]
    intro heq
    exact hlast a b (orient_eq_eq_iff.mp heq)
  · intro a b c ha hb hc hab hbc
    rw [isLE_compare_iff hscores ha hb] at hab
    rw [isLE_compare_iff hscores hb hc] at hbc
    exact (isLE_compare_iff hscores ha hc).mpr (hab.trans hbc)
  · intro fs hfs
    obtain ⟨out, hrun, hperm, hsorted⟩ := run_sort hscores hfs
    have hout : ∀ f ∈ out, S f := fun f hf => hfs f (hperm.mem_iff.mp hf)
    refine ⟨out, hrun, hperm, hsorted.imp_of_mem ?_⟩
    intro a b ha hb hab
    exact (isLE_compare_iff hscores (hout a ha) (hout b hb)).mpr hab
  · intro fs hfs hdistinct
    refine ⟨?_, ?_, ?_⟩
    · intro gs hperm
      exact run_sort_perm hlast hdistinct hscores hfs hperm
    · exact run_sort_worst hlast hdistinct hscores hfs
    · exact run_best? hlast hdistinct hscores hfs
  · intro fs hfs
    exact pairwise_sort_best hscores hmisplaced hfs

/-- Texts of three MIME types, one of which takes no charset, and the flavor of a string. -/
theorem ranks_homogeneous_texts :
    let r : FlavorRanker := ⟨⟨"UTF-8"⟩, "UTF-8", .best⟩
    let plain := Flavor.ofParts "text" "plain" []
    let fs : List Flavor := [Flavor.string, Flavor.ofParts "text" "rtf" [] .stream,
      Flavor.ofParts "text" "plain" [(Flavor.charsetParam, "UTF-16")] .byteArray, plain .string,
      Flavor.ofParts "text" "html" [(Flavor.charsetParam, "latin1")] .stream, plain .stream]
    (∀ f ∈ fs, SubtypeMemo.empty.Covers f) ∧ Homogeneous .empty (fun f => f ∈ fs) ∧
      (fs.map Flavor.toString).Nodup ∧
      (r.sort fs.reverse).run .empty = (r.sort fs).run .empty ∧
      ({ r with selection := .worst }.sort fs).run .empty
        = ((({ r with selection := .best }.sort fs).run .empty).1.reverse, .empty) ∧
      (({ r with selection := .best }.sort fs).run .empty).1.head? = some (plain .string) := by
  intro r plain fs
  have hcovers : ∀ f ∈ fs, SubtypeMemo.empty.Covers f := by decide +kernel
  have htexts : ∀ f ∈ fs, ((TextClassifier.isText f).run .empty).1 = true ∧
      f.mime.base ∈ Ranking.textBases := by decide +kernel
  have hdistinct : (fs.map Flavor.toString).Nodup := by decide +kernel
  obtain ⟨-, -, -, hsort, -⟩ := ranks_homogeneous r hcovers (.texts htexts)
  obtain ⟨hperm, hworst, hbest⟩ := hsort fs (fun f hf => hf) hdistinct
  have hfirst : ((r.best? fs).run .empty).1 = some (plain .string) := by decide +kernel
  simp only [hbest] at hfirst
  exact ⟨hcovers, .texts htexts, hdistinct, (hperm _ (List.reverse_perm fs).symm).symm, hworst, hfirst⟩

end FlavorRanker

end Clipboard
