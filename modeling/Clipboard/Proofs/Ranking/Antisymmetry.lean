import Clipboard.Proofs.TextClassifier.Calls

/-!
# Comparing two flavors the other way round

A comparison of flavors goes by keys that are compared one after the other, and each key compares the
other way round when the flavors change places (`objectScore_swap`, `charsetScore_swap`). Which keys
there are is up to the flavors, though. Two texts of one MIME type both take a charset or both take
none, and then they have the same keys. Texts of two MIME types without a rank are compared further as
if they had one MIME type; if the subtype of the left one alone takes a charset they have keys that
they do not have the other way round. That matters if the one is held as characters and the other as
bytes (`Clash`): whichever is on the left is then the better one.

`compare_swap_iff` says that nothing else is in the way: all other flavors compare the other way round
when they change places.
-/

namespace Clipboard

open SubtypeMemo (Extends)

/-- The decisions cover a flavor: if it is text by its primary type, its subtype is known. -/
def SubtypeMemo.Covers (memo : SubtypeMemo) (f : Flavor) : Prop :=
  f.mime.primary = "text" → (memo.find? f.mime.subtype).isSome = true

instance (memo : SubtypeMemo) (f : Flavor) : Decidable (memo.Covers f) :=
  inferInstanceAs (Decidable (_ → _))

namespace Ranking

variable {memo later : SubtypeMemo} {a b f : Flavor}

/-! ## Keys -/

theorem byRank_swap {α : Type} (rank : α → Nat) (a b : α) :
    byRank rank b a = (byRank rank a b).swap := by
  show compare (rank b) (rank a) = (compare (rank a) (rank b)).swap
  exact Std.OrientedCmp.eq_swap

section Ranked

variable {α : Type} [BEq α] [LawfulBEq α] {ranked : List α} {x y : α}

/-- Only what is not ranked shares its rank. -/
theorem eq_of_rankOrLast_eq (h : rankOrLast ranked x = rankOrLast ranked y) :
    x = y ∨ (x ∉ ranked ∧ y ∉ ranked) := by
  rw [rankOrLast, rankOrLast] at h
  cases hx : ranked.idxOf? x with
  | none =>
    cases hy : ranked.idxOf? y with
    | none => exact Or.inr ⟨List.idxOf?_eq_none_iff.mp hx, List.idxOf?_eq_none_iff.mp hy⟩
    | some j =>
      rw [hx, hy] at h
      cases h
  | some i =>
    cases hy : ranked.idxOf? y with
    | none =>
      rw [hx, hy] at h
      cases h
    | some j =>
      rw [hx, hy] at h
      cases h
      obtain ⟨_, hix, -⟩ := List.idxOf?_eq_some_iff.mp hx
      obtain ⟨_, hiy, -⟩ := List.idxOf?_eq_some_iff.mp hy
      exact Or.inl (hix.symm.trans hiy)

theorem rankOrLast_eq_zero_iff : rankOrLast ranked x = 0 ↔ x ∉ ranked := by
  rw [rankOrLast, ← List.idxOf?_eq_none_iff]
  cases ranked.idxOf? x <;> simp

/-- What is ranked is better than what is not. -/
theorem byRank_eq_gt (hx : x ∈ ranked) (hy : y ∉ ranked) :
    byRank (rankOrLast ranked) x y = .gt := by
  rw [byRank, rankOrLast_eq_zero_iff.mpr hy]
  exact Nat.compare_eq_gt.mpr (Nat.pos_of_ne_zero (fun h => rankOrLast_eq_zero_iff.mp h hx))

theorem byRank_eq_eq (hx : x ∉ ranked) (hy : y ∉ ranked) :
    byRank (rankOrLast ranked) x y = .eq := by
  rw [byRank, rankOrLast_eq_zero_iff.mpr hx, rankOrLast_eq_zero_iff.mpr hy]
  rfl

end Ranked

theorem mem_decodedRanks_iff {rep : Representation} :
    rep ∈ decodedRanks ↔ rep.isDecodedText = true := by
  cases rep <;> decide

theorem mem_encodedRanks_iff {rep : Representation} :
    rep ∈ encodedRanks ↔ rep.isEncodedText = true := by
  cases rep <;> decide

theorem charsetScore_swap (defaultCharset a b : String) :
    charsetScore defaultCharset b a = (charsetScore defaultCharset a b).swap := by
  simp only [charsetScore]
  rw [Ordering.swap_then, ← Std.OrientedCmp.eq_swap, ← Std.OrientedCmp.eq_swap]

theorem objectScore_swap (a b : Flavor) : objectScore b a = (objectScore a b).swap := by
  simp only [objectScore, Ordering.swap_then]
  rw [← byRank_swap, ← byRank_swap, ← byRank_swap]

theorem run_thenAsk {second : Memoized Ordering} {answer : Ordering}
    (h : second.run memo = (answer, memo)) (first : Ordering) :
    (thenAsk first second).run memo = (first.then answer, memo) := by
  cases first with
  | eq => exact h
  | lt => rfl
  | gt => rfl

theorem run_thenAsk_of_ne {first : Ordering} (h : first ≠ .eq) (second : Memoized Ordering) :
    (thenAsk first second).run memo = (first, memo) := by
  cases first with
  | eq => exact absurd rfl h
  | lt => rfl
  | gt => rfl

/-! ## Whether both are text -/

/-- Flavors that were both text are so later. -/
theorem isText_of_areText (h : ((areText a b).run memo).1 = true)
    (hlater : Extends ((areText a b).run memo).2 later) :
    (TextClassifier.isText a).run later = (true, later) ∧
      (TextClassifier.isText b).run later = (true, later) := by
  have ha := TextClassifier.settling_isText a
  have hb := TextClassifier.settling_isText b
  rw [areText, Memoized.run_bind, Memoized.run_ite] at h hlater
  split at h
  · next htext =>
    rw [if_pos htext] at hlater
    constructor
    · rw [ha.again ((hb.grows _).trans hlater), htext]
    · rw [hb.again hlater, h]
  · cases h

theorem run_areText (ha : (TextClassifier.isText a).run memo = (true, memo))
    (hb : (TextClassifier.isText b).run memo = (true, memo)) :
    (areText a b).run memo = (true, memo) := by
  rw [areText, Memoized.run_bind, ha]
  exact hb

/-- Flavors that were not both text are not both text later, asked about in either order. -/
theorem areText_swap (h : ((areText a b).run memo).1 = false)
    (hlater : Extends ((areText a b).run memo).2 later) : ((areText b a).run later).1 = false := by
  have ha := TextClassifier.settling_isText a
  have hb := TextClassifier.settling_isText b
  rw [areText, Memoized.run_bind, Memoized.run_ite] at h hlater
  rw [areText, Memoized.run_bind, Memoized.run_ite]
  split
  · next htextB =>
    -- `b` is text, which may not have been known before, and so `a` is not
    split at h
    · next htextA =>
      rw [if_pos htextA] at hlater
      rw [hb.again hlater, h] at htextB
      cases htextB
    · next htextA =>
      rw [if_neg htextA] at hlater
      rw [ha.again (Extends.trans hlater (hb.grows later))]
      exact Bool.eq_false_iff.mpr htextA
  · rfl

/-! ## Texts -/

/-- What makes a text of a flavor by its MIME type, if its subtype takes a charset or does not. -/
def isTextShape (f : Flavor) (takes : Bool) : Bool :=
  if takes then TextClassifier.isReadable f else f.representation.isEncodedText

/-- By these decisions the flavor is text by its MIME type, of a subtype that takes a charset or does
not. -/
structure IsTextBy (memo : SubtypeMemo) (f : Flavor) (takes : Bool) : Prop where
  primary : f.mime.primary = "text"
  known : memo.find? f.mime.subtype = some takes
  shape : isTextShape f takes = true

theorem run_isText_of_known {takes : Bool} (hprimary : f.mime.primary = "text")
    (hknown : memo.find? f.mime.subtype = some takes) :
    (TextClassifier.isText f).run memo = (isTextShape f takes, memo) := by
  have hrun : (TextClassifier.supportsCharset f).run memo = (takes, memo) :=
    SubtypeMemo.supportsCharset_of_find? hknown _
  rw [TextClassifier.isText, Memoized.run_bind, Memoized.run_ite,
    TextClassifier.run_isOtherText_of_text hprimary,
    TextClassifier.run_isCharsetText_of_text hprimary, hrun]
  cases takes with
  | true =>
    rw [isTextShape, if_pos rfl, hrun]
    cases TextClassifier.isReadable f with
    | true => rfl
    | false => rfl
  | false =>
    rw [hrun]
    rfl

namespace IsTextBy

variable {takes : Bool}

theorem run_supportsCharset (h : IsTextBy memo f takes) :
    (TextClassifier.supportsCharset f).run memo = (takes, memo) :=
  SubtypeMemo.supportsCharset_of_find? h.known _

theorem run_isText (h : IsTextBy memo f takes) :
    (TextClassifier.isText f).run memo = (true, memo) := by
  rw [run_isText_of_known h.primary h.known, h.shape]

/-- A text has a charset exactly if its subtype takes one. -/
theorem run_textCharset? (h : IsTextBy memo f takes) (c : TextClassifier) :
    (c.textCharset? f).run memo
      = (if takes then some (f.charset?.getD c.defaultCharset) else none, memo) := by
  rw [TextClassifier.textCharset?, Memoized.run_bind,
    TextClassifier.run_isCharsetText_of_text h.primary, h.run_supportsCharset]
  cases takes with
  | true =>
    have hreadable : TextClassifier.isReadable f = true := h.shape
    rw [hreadable]
    rfl
  | false => rfl

/-- Text that takes no charset is held as bytes. -/
theorem not_mem_decodedRanks (h : IsTextBy memo f false) : f.representation ∉ decodedRanks := by
  intro hmem
  have hencoded : f.representation.isEncodedText = true := h.shape
  rw [Representation.not_isEncodedText_of_isDecodedText (mem_decodedRanks_iff.mp hmem)] at hencoded
  cases hencoded

end IsTextBy

/-- If nothing is decided by asking whether a flavor is text, its subtype is known. -/
theorem covers_of_snd_run_isText (h : ((TextClassifier.isText f).run memo).2 = memo) :
    memo.Covers f := by
  intro hprimary
  rw [TextClassifier.snd_run_isText, TextClassifier.run_isCharsetText_of_text hprimary] at h
  have hknown := SubtypeMemo.find?_supportsCharset f.mime.subtype f.charset?.isSome memo
  have hsame : ((SubtypeMemo.supportsCharset f.mime.subtype f.charset?.isSome).run memo).2 = memo := h
  rw [hsame] at hknown
  rw [hknown, Option.isSome_some]

theorem run_isText_of_covers (h : memo.Covers f) :
    (TextClassifier.isText f).run memo = (((TextClassifier.isText f).run memo).1, memo) := by
  refine Prod.ext rfl ?_
  rw [TextClassifier.snd_run_isText]
  by_cases hprimary : f.mime.primary = "text"
  · obtain ⟨takes, hknown⟩ := Option.isSome_iff_exists.mp (h hprimary)
    have hrun : (TextClassifier.supportsCharset f).run memo = (takes, memo) :=
      SubtypeMemo.supportsCharset_of_find? hknown _
    rw [TextClassifier.run_isCharsetText_of_text hprimary, hrun]
  · rw [TextClassifier.run_isCharsetText_of_not_text hprimary]

/-- What has been found to be text is the flavor of a string, or is text by its MIME type. -/
theorem isTextBy_of_run_isText (h : (TextClassifier.isText f).run memo = (true, memo)) :
    f = Flavor.string ∨ ∃ takes, IsTextBy memo f takes := by
  by_cases hprimary : f.mime.primary = "text"
  · right
    have hcovers : memo.Covers f := covers_of_snd_run_isText (congrArg Prod.snd h)
    obtain ⟨takes, hknown⟩ := Option.isSome_iff_exists.mp (hcovers hprimary)
    rw [run_isText_of_known hprimary hknown] at h
    exact ⟨_, hprimary, hknown, congrArg Prod.fst h⟩
  · left
    rw [TextClassifier.isText, Memoized.run_bind, Memoized.run_ite,
      TextClassifier.run_isCharsetText_of_not_text hprimary,
      TextClassifier.run_isOtherText_of_not_text hprimary] at h
    by_contra hne
    rw [decide_eq_false hne] at h
    cases h

/-- Texts of one subtype have one MIME type. -/
theorem subtype_eq_of_base_eq {takesA takesB : Bool} (ha : IsTextBy memo a takesA)
    (hb : IsTextBy memo b takesB) (h : a.mime.base = b.mime.base) :
    a.mime.subtype = b.mime.subtype := by
  rw [MimeType.base, MimeType.base, ha.primary, hb.primary] at h
  exact (String.append_right_inj _).mp h

/-- No text by its MIME type has that of a string. -/
theorem base_ne_string {takes : Bool} (h : IsTextBy memo f takes) :
    f.mime.base ≠ Flavor.string.mime.base := by
  intro hbase
  have hfirst : f.mime.base.toList.head? = some 't' := by
    rw [MimeType.base, h.primary]
    simp
  rw [hbase] at hfirst
  revert hfirst
  decide

/-! ## Scores of texts -/

/-- The flavors are text of two MIME types without a rank. The first is held as characters and its
subtype takes a charset, the second is held as bytes and its subtype takes none. -/
structure Clash (memo : SubtypeMemo) (a b : Flavor) : Prop where
  first : IsTextBy memo a true
  second : IsTextBy memo b false
  unranked : a.mime.base ∉ textBases ∧ b.mime.base ∉ textBases
  decoded : a.representation.isDecodedText = true

variable {c : TextClassifier} {defaultCharset : String} {takesA takesB : Bool}

/-- The keys of texts of one MIME type, or of none with a rank, when their subtypes take a charset or
do not. -/
def equalBaseScore (c : TextClassifier) (defaultCharset : String) (takesA takesB : Bool)
    (a b : Flavor) : Ordering :=
  (if takesA then
    (byRank (rankOrLast decodedRanks) a.representation b.representation).then
      (if takesB then
        charsetScore defaultCharset (a.charset?.getD c.defaultCharset)
          (b.charset?.getD c.defaultCharset)
      else .eq)
  else .eq).then
    (byRank (rankOrLast encodedRanks) a.representation b.representation)

theorem run_textCharsetScore (ha : IsTextBy memo a true) (hb : IsTextBy memo b takesB) :
    (textCharsetScore c defaultCharset a b).run memo
      = (if takesB then
          charsetScore defaultCharset (a.charset?.getD c.defaultCharset)
            (b.charset?.getD c.defaultCharset)
        else .eq, memo) := by
  rw [textCharsetScore, Memoized.run_bind, ha.run_textCharset?, Memoized.run_bind,
    hb.run_textCharset?]
  cases takesB with
  | true => rfl
  | false => rfl

theorem run_textScore (ha : IsTextBy memo a takesA) (hb : IsTextBy memo b takesB) :
    (textScore c defaultCharset a b).run memo
      = ((byRank (rankOrLast textBases) a.mime.base b.mime.base).then
          (equalBaseScore c defaultCharset takesA takesB a b), memo) := by
  refine run_thenAsk ?_ _
  rw [Memoized.run_bind, decodedScore, Memoized.run_bind, ha.run_supportsCharset,
    Memoized.run_ite]
  cases takesA with
  | true =>
    rw [if_pos rfl, run_thenAsk (run_textCharsetScore ha hb)]
    rfl
  | false => rfl

/-! ### The other way round -/

theorem equalBaseScore_swap (takes : Bool) (a b : Flavor) :
    equalBaseScore c defaultCharset takes takes b a
      = (equalBaseScore c defaultCharset takes takes a b).swap := by
  rw [equalBaseScore, equalBaseScore, Ordering.swap_then, ← byRank_swap]
  cases takes with
  | true =>
    simp only [if_true]
    rw [Ordering.swap_then, ← byRank_swap, ← charsetScore_swap]
  | false => rfl

/-- Texts in bytes are compared as such, whether they take a charset or not. -/
theorem equalBaseScore_mixed_swap (ha : a.representation ∉ decodedRanks)
    (hb : b.representation ∉ decodedRanks) :
    equalBaseScore c defaultCharset false true b a
      = (equalBaseScore c defaultCharset true false a b).swap := by
  rw [equalBaseScore, equalBaseScore, byRank_eq_eq ha hb, Ordering.swap_then, ← byRank_swap]
  rfl

namespace Clash

/-- On the left, text in characters is better by its representation as characters. -/
theorem equalBaseScore_eq_gt (h : Clash memo a b) :
    equalBaseScore c defaultCharset true false a b = .gt := by
  rw [equalBaseScore, if_pos rfl, byRank_eq_gt (mem_decodedRanks_iff.mpr h.decoded)
    h.second.not_mem_decodedRanks]
  rfl

/-- On the left, text in bytes is better by its representation as bytes: nothing else is asked. -/
theorem equalBaseScore_swap_eq_gt (h : Clash memo a b) :
    equalBaseScore c defaultCharset false true b a = .gt := by
  refine byRank_eq_gt (mem_encodedRanks_iff.mpr h.second.shape) ?_
  rw [mem_encodedRanks_iff,
    Representation.not_isEncodedText_of_isDecodedText h.decoded]
  decide

theorem run_textScore_eq_gt (h : Clash memo a b) (c : TextClassifier) (defaultCharset : String) :
    ((textScore c defaultCharset a b).run memo).1 = .gt ∧
      ((textScore c defaultCharset b a).run memo).1 = .gt := by
  rw [run_textScore h.first h.second, run_textScore h.second h.first,
    byRank_swap _ a.mime.base b.mime.base, byRank_eq_eq h.unranked.1 h.unranked.2]
  constructor
  · show equalBaseScore c defaultCharset true false a b = .gt
    exact h.equalBaseScore_eq_gt
  · show equalBaseScore c defaultCharset false true b a = .gt
    exact h.equalBaseScore_swap_eq_gt

end Clash

/-- Texts by their MIME types compare the other way round, unless they clash. -/
theorem run_textScore_swap (ha : IsTextBy memo a takesA) (hb : IsTextBy memo b takesB)
    (hab : ¬Clash memo a b) (hba : ¬Clash memo b a) :
    ((textScore c defaultCharset b a).run memo).1
      = ((textScore c defaultCharset a b).run memo).1.swap := by
  rw [run_textScore ha hb, run_textScore hb ha, Ordering.swap_then, ← byRank_swap]
  cases hbase : byRank (rankOrLast textBases) b.mime.base a.mime.base with
  | lt => rfl
  | gt => rfl
  | eq =>
    show equalBaseScore c defaultCharset takesB takesA b a
      = (equalBaseScore c defaultCharset takesA takesB a b).swap
    rcases eq_of_rankOrLast_eq (Nat.compare_eq_eq.mp hbase) with hsame | ⟨hunrankedB, hunrankedA⟩
    · -- one MIME type, so one subtype, which takes a charset or does not
      have hknown := hb.known
      rw [subtype_eq_of_base_eq hb ha hsame, ha.known, Option.some.injEq] at hknown
      rw [hknown]
      exact equalBaseScore_swap takesB a b
    · cases takesA with
      | true =>
        cases takesB with
        | true => exact equalBaseScore_swap true a b
        | false =>
          refine equalBaseScore_mixed_swap (fun h => ?_) hb.not_mem_decodedRanks
          exact hab ⟨ha, hb, ⟨hunrankedA, hunrankedB⟩, mem_decodedRanks_iff.mp h⟩
      | false =>
        cases takesB with
        | false => exact equalBaseScore_swap false a b
        | true =>
          rw [equalBaseScore_mixed_swap (fun h => ?_) ha.not_mem_decodedRanks, Ordering.swap_swap]
          exact hba ⟨hb, ha, ⟨hunrankedB, hunrankedA⟩, mem_decodedRanks_iff.mp h⟩

/-- Of different flavors that have been found to be text, both are text by their MIME types, or the
ranks of their MIME types decide: that of a string is one that no other text has. -/
theorem isTextBy_or_byRank_ne (hne : a ≠ b)
    (ha : (TextClassifier.isText a).run memo = (true, memo))
    (hb : (TextClassifier.isText b).run memo = (true, memo)) :
    (∃ takesA takesB, IsTextBy memo a takesA ∧ IsTextBy memo b takesB) ∨
      byRank (rankOrLast textBases) a.mime.base b.mime.base ≠ .eq := by
  have hdecided (h : a.mime.base ≠ b.mime.base)
      (hranked : a.mime.base ∈ textBases ∨ b.mime.base ∈ textBases) :
      byRank (rankOrLast textBases) a.mime.base b.mime.base ≠ .eq := by
    intro heq
    rcases eq_of_rankOrLast_eq (Nat.compare_eq_eq.mp heq) with hsame | ⟨hna, hnb⟩
    · exact h hsame
    · exact hranked.elim hna hnb
  have hstring : Flavor.string.mime.base ∈ textBases := by decide
  rcases isTextBy_of_run_isText ha with rfl | ⟨takesA, ha⟩
  · rcases isTextBy_of_run_isText hb with rfl | ⟨takesB, hb⟩
    · exact absurd rfl hne
    · exact Or.inr (hdecided (base_ne_string hb).symm (Or.inl hstring))
  · rcases isTextBy_of_run_isText hb with rfl | ⟨takesB, hb⟩
    · exact Or.inr (hdecided (base_ne_string ha) (Or.inr hstring))
    · exact Or.inl ⟨takesA, takesB, ha, hb⟩

/-- Nothing is decided by comparing what has been found to be text. -/
theorem snd_run_textScore (hne : a ≠ b)
    (ha : (TextClassifier.isText a).run memo = (true, memo))
    (hb : (TextClassifier.isText b).run memo = (true, memo)) :
    ((textScore c defaultCharset a b).run memo).2 = memo := by
  rcases isTextBy_or_byRank_ne hne ha hb with ⟨_, _, ha, hb⟩ | hranks
  · rw [run_textScore ha hb]
  · rw [textScore, run_thenAsk_of_ne hranks]

/-- What has been found to be text compares the other way round, unless it clashes. -/
theorem run_textScore_swap_of_isText (hne : a ≠ b)
    (ha : (TextClassifier.isText a).run memo = (true, memo))
    (hb : (TextClassifier.isText b).run memo = (true, memo))
    (hab : ¬Clash memo a b) (hba : ¬Clash memo b a) :
    ((textScore c defaultCharset b a).run memo).1
      = ((textScore c defaultCharset a b).run memo).1.swap := by
  rcases isTextBy_or_byRank_ne hne ha hb with ⟨_, _, ha, hb⟩ | hranks
  · exact run_textScore_swap ha hb hab hba
  · have hranks' : byRank (rankOrLast textBases) b.mime.base a.mime.base ≠ .eq := by
      rw [byRank_swap]
      intro heq
      exact hranks (Ordering.swap_eq_eq.mp heq)
    rw [textScore, textScore, run_thenAsk_of_ne hranks, run_thenAsk_of_ne hranks', byRank_swap]

end Ranking

namespace FlavorRanker

open Ranking (Clash)

variable (r : FlavorRanker) {a b : Flavor} {memo later : SubtypeMemo}

theorem orient_swap (s : Selection) (o : Ordering) : s.orient o.swap = (s.orient o).swap := by
  cases s with
  | best => rfl
  | worst => rfl

/-! ## Scores -/

theorem run_score_of_text (hne : a ≠ b)
    (ha : (TextClassifier.isText a).run memo = (true, memo))
    (hb : (TextClassifier.isText b).run memo = (true, memo)) :
    ((r.score a b).run memo).1
      = ((Ranking.textScore r.classifier r.defaultCharset a b).run memo).1.then
          (Ord.compare a.toString b.toString) := by
  rw [score, if_neg hne, Memoized.run_bind, Ranking.run_areText ha hb]
  rfl

theorem run_score_of_not_text (hne : a ≠ b) (h : ((Ranking.areText a b).run memo).1 = false) :
    ((r.score a b).run memo).1
      = (Ranking.objectScore a b).then (Ord.compare a.toString b.toString) := by
  rw [score, if_neg hne, Memoized.run_bind, h]
  rfl

/-- Nothing is decided by comparing flavors whose subtypes are known. -/
theorem run_compare_of_covers (ha : memo.Covers a) (hb : memo.Covers b) :
    (r.compare a b).run memo = (((r.compare a b).run memo).1, memo) := by
  refine Prod.ext rfl ?_
  show ((r.score a b).run memo).2 = memo
  by_cases hne : a = b
  · rw [score, if_pos hne]
    rfl
  · have hrunA := Ranking.run_isText_of_covers ha
    have hrunB := Ranking.run_isText_of_covers hb
    rw [score, if_neg hne, Ranking.areText, Memoized.run_bind, Memoized.run_bind, hrunA]
    cases htextA : ((TextClassifier.isText a).run memo).1 with
    | false => rfl
    | true =>
      rw [if_pos rfl, hrunB]
      cases htextB : ((TextClassifier.isText b).run memo).1 with
      | false => rfl
      | true => exact Ranking.snd_run_textScore hne (htextA ▸ hrunA) (htextB ▸ hrunB)

/-- To compare two flavors is to ask first of all whether they are text. -/
theorem extends_score (hne : a ≠ b) (memo : SubtypeMemo) :
    Extends ((Ranking.areText a b).run memo).2 ((r.score a b).run memo).2 := by
  rw [score, if_neg hne, Memoized.run_bind]
  refine Memoized.Settling.grows ?_ _
  refine .of_ite ?_ ((Memoized.Settling.of_pure _).bind (fun _ => .of_pure _))
  exact (Ranking.settling_textScore r.classifier r.defaultCharset a b).bind (fun _ => .of_pure _)

/-- The scores of flavors that do not clash are the other way round when they change places. -/
theorem score_swap (hlater : Extends ((r.score a b).run memo).2 later)
    (hab : ¬Clash later a b) (hba : ¬Clash later b a) :
    ((r.score b a).run later).1 = ((r.score a b).run memo).1.swap := by
  by_cases hne : a = b
  · subst hne
    rw [score, if_pos rfl]
    rfl
  · have hagain := (r.settling_score a b).again hlater
    have hfirst : ((r.score a b).run memo).1 = ((r.score a b).run later).1 := by rw [hagain]
    have hasked := (r.extends_score hne memo).trans hlater
    have hlast : Ord.compare b.toString a.toString = (Ord.compare a.toString b.toString).swap :=
      Std.OrientedCmp.eq_swap
    rw [hfirst]
    cases htext : ((Ranking.areText a b).run memo).1 with
    | true =>
      obtain ⟨ha, hb⟩ := Ranking.isText_of_areText htext hasked
      rw [r.run_score_of_text hne ha hb, r.run_score_of_text (Ne.symm hne) hb ha,
        Ordering.swap_then, Ranking.run_textScore_swap_of_isText hne ha hb hab hba, hlast]
    | false =>
      have hsame : ((Ranking.areText a b).run later).1 = false := by
        rw [(Ranking.settling_areText a b).again hasked, htext]
      rw [r.run_score_of_not_text hne hsame,
        r.run_score_of_not_text (Ne.symm hne) (Ranking.areText_swap htext hasked),
        Ordering.swap_then, Ranking.objectScore_swap, hlast]

/-- Of two flavors that clash the one on the left is the better one. -/
theorem score_of_clash (h : Clash memo a b) :
    ((r.score a b).run memo).1 = .gt ∧ ((r.score b a).run memo).1 = .gt := by
  have hne : a ≠ b := by
    rintro rfl
    exact h.second.not_mem_decodedRanks (Ranking.mem_decodedRanks_iff.mpr h.decoded)
  obtain ⟨hfirst, hsecond⟩ := h.run_textScore_eq_gt r.classifier r.defaultCharset
  rw [r.run_score_of_text hne h.first.run_isText h.second.run_isText,
    r.run_score_of_text hne.symm h.second.run_isText h.first.run_isText, hfirst, hsecond]
  exact ⟨rfl, rfl⟩

/-- **Flavors compare the other way round when they change places, unless they clash**, and if they
clash the one that is on the left comes first. The second comparison may be made at any time after the
first. -/
theorem compare_swap_iff (a b : Flavor) (before between : List Call) :
    let later := Call.after (before ++ .compare r a b :: between)
    let first := ((r.compare a b).run (Call.after before)).1
    let second := ((r.compare b a).run later).1
    (second = first.swap ↔ ¬Clash later a b ∧ ¬Clash later b a) ∧
      (Clash later a b ∨ Clash later b a →
        first = r.selection.orient .gt ∧ second = r.selection.orient .gt) := by
  intro later first second
  have hlater : Extends ((r.score a b).run (Call.after before)).2 later :=
    Call.extends_after before (.compare r a b) between
  have hclash : Clash later a b ∨ Clash later b a →
      first = r.selection.orient .gt ∧ second = r.selection.orient .gt := by
    intro h
    have hscores : ((r.score a b).run later).1 = .gt ∧ ((r.score b a).run later).1 = .gt := by
      rcases h with h | h
      · exact r.score_of_clash h
      · exact (r.score_of_clash h).symm
    have hfirst : ((r.score a b).run (Call.after before)).1 = ((r.score a b).run later).1 := by
      rw [(r.settling_score a b).again hlater]
    constructor
    · show r.selection.orient ((r.score a b).run (Call.after before)).1 = _
      rw [hfirst, hscores.1]
    · show r.selection.orient ((r.score b a).run later).1 = _
      rw [hscores.2]
  refine ⟨⟨?_, ?_⟩, hclash⟩
  · intro hswap
    refine not_or.mp (fun h => ?_)
    obtain ⟨hfirst, hsecond⟩ := hclash h
    rw [hfirst, hsecond] at hswap
    revert hswap
    cases r.selection <;> decide
  · rintro ⟨hab, hba⟩
    show r.selection.orient ((r.score b a).run later).1
      = (r.selection.orient ((r.score a b).run (Call.after before)).1).swap
    rw [r.score_swap hlater hab hba, orient_swap]

/-- Two unranked texts that are both held as bytes compare the other way round, although only one of
their subtypes takes a charset. -/
theorem compare_swap_iff_bytes :
    let r : FlavorRanker := ⟨⟨"UTF-8"⟩, "UTF-8", .best⟩
    let foo := Flavor.ofParts "text" "x-foo" [(Flavor.charsetParam, "UTF-8")] .byteArray
    let bar := Flavor.ofParts "text" "x-bar" [] .stream
    let first := ((r.compare foo bar).run (Call.after [])).1
    first = .gt ∧ ((r.compare bar foo).run (Call.after [.compare r foo bar])).1 = first.swap := by
  intro r foo bar first
  have hbytes (memo : SubtypeMemo) : ¬Clash memo foo bar ∧ ¬Clash memo bar foo :=
    ⟨fun h => absurd h.decoded (by decide), fun h => absurd h.decoded (by decide)⟩
  obtain ⟨hiff, -⟩ := compare_swap_iff r foo bar [] []
  rw [List.nil_append] at hiff
  exact ⟨by decide +kernel, hiff.mpr (hbytes (Call.after [.compare r foo bar]))⟩

/-- A string and a stream of subtypes that are not known: each comes before the other. -/
theorem compare_ne_swap_unknown :
    let r : FlavorRanker := ⟨⟨"UTF-8"⟩, "UTF-8", .best⟩
    let foo := Flavor.ofParts "text" "x-foo" [(Flavor.charsetParam, "UTF-8")] .string
    let bar := Flavor.ofParts "text" "x-bar" [] .stream
    ((r.compare foo bar).run (Call.after [])).1 = .lt ∧
      ((r.compare bar foo).run (Call.after [.compare r foo bar])).1 = .lt := by
  decide +kernel

end FlavorRanker

end Clipboard
