import Clipboard.Flavor.TextClassifier

/-!
# Decisions are final

A question about flavors may add to the decisions about subtypes, but what has been decided stays
(`Extends`). A question is `Settling` if, once it has been asked, it is answered in the same way for
ever and decides nothing more. All the questions of the classifier are.
-/

namespace Clipboard

namespace SubtypeMemo

/-- Whatever is known before is known after. -/
def Extends (before after : SubtypeMemo) : Prop :=
  ∀ subtype answer, before.find? subtype = some answer → after.find? subtype = some answer

theorem Extends.refl (memo : SubtypeMemo) : Extends memo memo := fun _ _ h => h

theorem Extends.trans {a b c : SubtypeMemo} (hab : Extends a b) (hbc : Extends b c) :
    Extends a c := fun subtype answer h => hbc subtype answer (hab subtype answer h)

/-- Deciding what is not known changes nothing that is. -/
theorem extends_cons {memo : SubtypeMemo} {subtype : String} (h : memo.find? subtype = none)
    (answer : Bool) : Extends memo ⟨(subtype, answer) :: memo.decided⟩ := by
  intro other known hknown
  by_cases heq : other = subtype
  · subst heq
    rw [h] at hknown
    cases hknown
  · have hne : (other == subtype) = false := by simpa using heq
    simpa only [find?, List.lookup_cons, hne] using hknown

end SubtypeMemo

namespace Memoized

open SubtypeMemo (Extends)

variable {α β : Type}

/-- A question that is decided once it has been asked. -/
structure Settling (x : Memoized α) : Prop where
  /-- Asking it forgets nothing. -/
  grows : ∀ memo, Extends memo (x.run memo).2
  /-- Asked again, at any later time, it is answered as before. -/
  again : ∀ {memo later}, Extends (x.run memo).2 later → x.run later = ((x.run memo).1, later)

namespace Settling

theorem of_pure (a : α) : Settling (pure a : Memoized α) :=
  ⟨Extends.refl, fun _ => rfl⟩

theorem bind {x : Memoized α} {f : α → Memoized β} (hx : Settling x) (hf : ∀ a, Settling (f a)) :
    Settling (x >>= f) := by
  refine ⟨fun memo => ?_, fun {memo later} hlater => ?_⟩
  · exact (hx.grows memo).trans ((hf _).grows _)
  · have hmid := ((hf (x.run memo).1).grows (x.run memo).2).trans hlater
    rw [run_bind, hx.again hmid]
    exact (hf _).again hlater

theorem of_ite {c : Prop} [Decidable c] {x y : Memoized α} (hx : Settling x) (hy : Settling y) :
    Settling (if c then x else y) := by
  split
  · exact hx
  · exact hy

theorem filter {p : α → Memoized Bool} (h : ∀ a, Settling (p a)) (as : List α) :
    Settling (Memoized.filter p as) := by
  induction as with
  | nil => exact .of_pure []
  | cons a as ih => exact (h a).bind (fun _ => ih.bind (fun _ => .of_pure _))

/-- What is kept is what would be kept going by the decisions at the end. -/
theorem run_filter {p : α → Memoized Bool} (h : ∀ a, Settling (p a)) {as : List α}
    {memo later : SubtypeMemo} (hlater : Extends ((Memoized.filter p as).run memo).2 later) :
    ((Memoized.filter p as).run memo).1 = as.filter (fun a => ((p a).run later).1) := by
  induction as generalizing memo with
  | nil => rfl
  | cons a as ih =>
    have hrest := ih hlater
    have hfirst := (h a).again (((filter h as).grows _).trans hlater)
    simp only [Memoized.filter, run_bind, run_pure, List.filter_cons, hrest, hfirst]

/-- Of no element there is anything to decide at the end. -/
theorem snd_run_of_filter {p : α → Memoized Bool} (h : ∀ a, Settling (p a)) {as : List α} {a : α}
    {memo later : SubtypeMemo} (hlater : Extends ((Memoized.filter p as).run memo).2 later)
    (ha : a ∈ as) : ((p a).run later).2 = later := by
  induction as generalizing memo with
  | nil => cases ha
  | cons b as ih =>
    rcases List.mem_cons.mp ha with rfl | ha
    · rw [(h a).again (((filter h as).grows _).trans hlater)]
    · exact ih hlater ha

end Settling

end Memoized

open Memoized (Settling)

theorem SubtypeMemo.settling_supportsCharset (subtype : String) (hasCharset : Bool) :
    Settling (supportsCharset subtype hasCharset) := by
  refine ⟨fun memo => ?_, fun {memo later} hlater => ?_⟩
  · cases h : memo.find? subtype with
    | some answer =>
      rw [supportsCharset_of_find? h]
      exact Extends.refl memo
    | none =>
      rw [supportsCharset_of_find?_eq_none h]
      exact extends_cons h hasCharset
  · have hknown := hlater _ _ (find?_supportsCharset subtype hasCharset memo)
    exact supportsCharset_of_find? hknown hasCharset

namespace TextClassifier

theorem settling_isCharsetText (f : Flavor) : Settling (isCharsetText f) := by
  unfold isCharsetText
  refine .of_ite (.of_pure true) (.of_ite (.of_pure false) ?_)
  exact (SubtypeMemo.settling_supportsCharset _ _).bind (fun _ => .of_pure _)

theorem settling_isOtherText (f : Flavor) : Settling (isOtherText f) := by
  unfold isOtherText
  refine .of_ite (.of_pure false) ?_
  exact (SubtypeMemo.settling_supportsCharset _ _).bind (fun _ => .of_pure _)

theorem settling_isText (f : Flavor) : Settling (isText f) :=
  (settling_isCharsetText f).bind
    (fun _ => .of_ite (.of_pure true) (settling_isOtherText f))

theorem settling_textCharset? (c : TextClassifier) (f : Flavor) : Settling (c.textCharset? f) :=
  (settling_isCharsetText f).bind (fun _ => .of_ite (.of_pure _) (.of_pure _))

theorem settling_textCharset (c : TextClassifier) (f : Flavor) : Settling (c.textCharset f) :=
  (c.settling_textCharset? f).bind (fun _ => .of_pure _)

/-- Only bytes are text that no charset applies to. -/
theorem isOtherText_of_not_isEncodedText {f : Flavor} (h : f.representation.isEncodedText = false)
    (memo : SubtypeMemo) : ((isOtherText f).run memo).1 = false := by
  rw [isOtherText, Memoized.run_ite]
  split
  · rfl
  · rw [Memoized.run_bind, Memoized.run_pure, h, Bool.and_false]

/-- Text that is not held as bytes is charset text. -/
theorem isCharsetText_of_isText {f : Flavor} {memo : SubtypeMemo}
    (h : ((isText f).run memo).1 = true) (hrep : f.representation.isEncodedText = false) :
    ((isCharsetText f).run memo).1 = true := by
  rw [isText, Memoized.run_bind, Memoized.run_ite] at h
  split at h
  · next hcharset => exact hcharset
  · rw [isOtherText_of_not_isEncodedText hrep] at h
    cases h

/-- Text that has been found to be charset text is so for ever. -/
theorem isCharsetText_again {f : Flavor} {memo later : SubtypeMemo}
    (h : ((isCharsetText f).run memo).1 = true)
    (hlater : SubtypeMemo.Extends ((isCharsetText f).run memo).2 later) :
    (isCharsetText f).run later = (true, later) := by
  rw [(settling_isCharsetText f).again hlater, h]

theorem textCharset_run {c : TextClassifier} {f : Flavor} {memo : SubtypeMemo}
    (h : (isCharsetText f).run memo = (true, memo)) :
    (c.textCharset f).run memo = (f.charset?.getD c.defaultCharset, memo) := by
  simp [textCharset, textCharset?, h]

end TextClassifier

end Clipboard
