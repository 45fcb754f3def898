import Clipboard.Proofs.Negotiation.Import
import Clipboard.Proofs.Transfer.Settling

/-!
# Calls that share a classifier

All that asks about flavors goes by the same decisions about subtypes and adds to them: the questions
themselves (`Question`), negotiation, ranking and conversion (`Call`). A call is settled by being made
once (`Call.settling_ask`), whatever other calls are made before and after it, and so the decisions
only grow from call to call (`Call.extends_after`).

A question looks up one subtype, or none (`Question.run_ask`): that is how a subtype comes to be
decided, and the question about it that is first of all decides it for every later one.
-/

namespace Clipboard

open SubtypeMemo (Extends)
open Memoized (Settling)

namespace TextClassifier

/-- The flavor of a string is no text by its MIME type. -/
theorem ne_string_of_primary {f : Flavor} (h : f.mime.primary = "text") : f ≠ Flavor.string := by
  rintro rfl
  revert h
  decide

/-- Of a flavor of text it is asked whether its subtype takes a charset. -/
theorem run_isCharsetText_of_text {f : Flavor} (h : f.mime.primary = "text") (memo : SubtypeMemo) :
    (isCharsetText f).run memo
      = (((supportsCharset f).run memo).1 && isReadable f, ((supportsCharset f).run memo).2) := by
  rw [isCharsetText, if_neg (ne_string_of_primary h), if_neg (not_not_intro h)]
  rfl

theorem run_isOtherText_of_text {f : Flavor} (h : f.mime.primary = "text") (memo : SubtypeMemo) :
    (isOtherText f).run memo
      = (!((supportsCharset f).run memo).1 && f.representation.isEncodedText,
        ((supportsCharset f).run memo).2) := by
  rw [isOtherText, if_neg (not_not_intro h)]
  rfl

/-- Of any other flavor nothing is asked. -/
theorem run_isCharsetText_of_not_text {f : Flavor} (h : f.mime.primary ≠ "text")
    (memo : SubtypeMemo) : (isCharsetText f).run memo = (decide (f = Flavor.string), memo) := by
  rw [isCharsetText, if_pos h]
  by_cases hstring : f = Flavor.string
  · rw [if_pos hstring, decide_eq_true hstring]
    rfl
  · rw [if_neg hstring, decide_eq_false hstring]
    rfl

theorem run_isOtherText_of_not_text {f : Flavor} (h : f.mime.primary ≠ "text")
    (memo : SubtypeMemo) : (isOtherText f).run memo = (false, memo) := by
  rw [isOtherText, if_pos h]
  rfl

/-- To be told which kind of text a flavor is takes the same decision as to be told of either. -/
theorem snd_run_isText (f : Flavor) (memo : SubtypeMemo) :
    ((isText f).run memo).2 = ((isCharsetText f).run memo).2 := by
  rw [isText, Memoized.run_bind, Memoized.run_ite]
  split
  · rfl
  · by_cases htext : f.mime.primary = "text"
    · have hagain : (supportsCharset f).run ((supportsCharset f).run memo).2
          = (supportsCharset f).run memo := SubtypeMemo.supportsCharset_again _ _ _ memo
      rw [run_isOtherText_of_text htext, run_isCharsetText_of_text htext, hagain]
    · rw [run_isOtherText_of_not_text htext]

/-- A flavor whose subtype takes a charset is no text in bytes without one. -/
theorem isOtherText_of_isCharsetText {f : Flavor} {memo later : SubtypeMemo}
    (h : ((isCharsetText f).run memo).1 = true)
    (hlater : Extends ((isCharsetText f).run memo).2 later) :
    ((isOtherText f).run later).1 = false := by
  by_cases htext : f.mime.primary = "text"
  · rw [run_isCharsetText_of_text htext] at h hlater
    have hsupports : ((supportsCharset f).run memo).1 = true := (Bool.and_eq_true_iff.mp h).1
    have hagain : (supportsCharset f).run later = (((supportsCharset f).run memo).1, later) :=
      (SubtypeMemo.settling_supportsCharset _ _).again hlater
    rw [run_isOtherText_of_text htext, hagain, hsupports]
    rfl
  · rw [run_isOtherText_of_not_text htext]

/-- And the other way round. -/
theorem isCharsetText_of_isOtherText {f : Flavor} {memo later : SubtypeMemo}
    (h : ((isOtherText f).run memo).1 = true)
    (hlater : Extends ((isOtherText f).run memo).2 later) :
    ((isCharsetText f).run later).1 = false := by
  by_cases htext : f.mime.primary = "text"
  · rw [run_isOtherText_of_text htext] at h hlater
    have hsupports : ((supportsCharset f).run memo).1 = false := by
      simpa using (Bool.and_eq_true_iff.mp h).1
    have hagain : (supportsCharset f).run later = (((supportsCharset f).run memo).1, later) :=
      (SubtypeMemo.settling_supportsCharset _ _).again hlater
    rw [run_isCharsetText_of_text htext, hagain, hsupports]
    rfl
  · rw [run_isOtherText_of_not_text htext] at h
    cases h

/-! ## Questions -/

/-- A question to the classifier. -/
inductive Question where
  | supportsCharset (f : Flavor)
  /-- The question whether a subtype takes a charset, by its name, when the flavor in hand names a
  charset or does not. -/
  | subtypeSupportsCharset (subtype : String) (hasCharset : Bool)
  | isCharsetText (f : Flavor)
  | isOtherText (f : Flavor)
  | isText (f : Flavor)
  | textCharset (f : Flavor)
  deriving DecidableEq, Repr

namespace Question

def Answer : Question → Type
  | textCharset _ => Option String
  | _ => Bool

def ask (c : TextClassifier) : (q : Question) → Memoized q.Answer
  | supportsCharset f => TextClassifier.supportsCharset f
  | subtypeSupportsCharset subtype hasCharset => SubtypeMemo.supportsCharset subtype hasCharset
  | isCharsetText f => TextClassifier.isCharsetText f
  | isOtherText f => TextClassifier.isOtherText f
  | isText f => TextClassifier.isText f
  | textCharset f => c.textCharset? f

/-- The subtype that a question looks up, and whether the flavor in hand names a charset. -/
def lookup? : Question → Option (String × Bool)
  | supportsCharset f => some (f.mime.subtype, f.charset?.isSome)
  | subtypeSupportsCharset subtype hasCharset => some (subtype, hasCharset)
  | isCharsetText f | isOtherText f | isText f | textCharset f =>
    if f.mime.primary = "text" then some (f.mime.subtype, f.charset?.isSome) else none

theorem settling_ask (c : TextClassifier) (q : Question) : Settling (q.ask c) := by
  cases q with
  | supportsCharset f => exact SubtypeMemo.settling_supportsCharset _ _
  | subtypeSupportsCharset subtype hasCharset =>
    exact SubtypeMemo.settling_supportsCharset subtype hasCharset
  | isCharsetText f => exact settling_isCharsetText f
  | isOtherText f => exact settling_isOtherText f
  | isText f => exact settling_isText f
  | textCharset f => exact c.settling_textCharset? f

/-- What a question decides is what its lookup decides. -/
theorem snd_run_ask (c : TextClassifier) (q : Question) (memo : SubtypeMemo) :
    ((q.ask c).run memo).2 = match q.lookup? with
      | some (subtype, hasCharset) => ((SubtypeMemo.supportsCharset subtype hasCharset).run memo).2
      | none => memo := by
  have hcharsetText (f : Flavor) : ((TextClassifier.isCharsetText f).run memo).2
      = match (isCharsetText f).lookup? with
        | some (subtype, hasCharset) =>
          ((SubtypeMemo.supportsCharset subtype hasCharset).run memo).2
        | none => memo := by
    by_cases htext : f.mime.primary = "text"
    · rw [run_isCharsetText_of_text htext, lookup?, if_pos htext]
      rfl
    · rw [run_isCharsetText_of_not_text htext, lookup?, if_neg htext]
  cases q with
  | supportsCharset f => rfl
  | subtypeSupportsCharset subtype hasCharset => rfl
  | isCharsetText f => exact hcharsetText f
  | isText f => exact (snd_run_isText f memo).trans (hcharsetText f)
  | isOtherText f =>
    by_cases htext : f.mime.primary = "text"
    · rw [ask, run_isOtherText_of_text htext, lookup?, if_pos htext]
      rfl
    · rw [ask, run_isOtherText_of_not_text htext, lookup?, if_neg htext]
  | textCharset f =>
    refine Eq.trans ?_ (hcharsetText f)
    rw [ask, textCharset?, Memoized.run_bind, Memoized.run_ite]
    split
    · rfl
    · rfl

end Question

end TextClassifier

/-! ## Calls -/

open TextClassifier (Question)

/-- Whatever asks about flavors. -/
inductive Call where
  /-- A question to a classifier, which has a default charset. -/
  | question (c : TextClassifier) (q : Question)
  | isConvertible (f : Flavor)
  | formatsForFlavors (t : FormatTable) (fs : List Flavor)
  | flavorsForFormats (t : FormatTable) (ids : List FormatId)
  | flavorSet (t : FormatTable) (ids : List FormatId)
  | flavorsSorted (t : FormatTable) (r : FlavorRanker) (ids : List FormatId)
  | compare (r : FlavorRanker) (a b : Flavor)
  | sort (r : FlavorRanker) (fs : List Flavor)
  | best (r : FlavorRanker) (fs : List Flavor)
  | exportFrom (e : Engine) (source : Source) (f : Flavor) (id : FormatId)
  | importBytes (e : Engine) (bytes : Bytes) (f : Flavor) (id : FormatId) (locale? : Option Source)
  | importStream (e : Engine) (s : ByteStream) (f : Flavor) (id : FormatId)
    (locale? : Option Source)

namespace Call

def Answer : Call → Type
  | question _ q => q.Answer
  | isConvertible _ => Bool
  | formatsForFlavors _ _ => RankedFormats
  | flavorsForFormats _ _ => Negotiation.Origins
  | flavorSet _ _ | flavorsSorted _ _ _ | sort _ _ => List Flavor
  | compare _ _ _ => Ordering
  | best _ _ => Option Flavor
  | exportFrom _ _ _ _ => Except Failure (Option Bytes)
  | importBytes _ _ _ _ _ | importStream _ _ _ _ _ => Except Failure (Option TransferValue)

def ask : (call : Call) → Memoized call.Answer
  | question c q => q.ask c
  | isConvertible f => Negotiation.isConvertible f
  | formatsForFlavors t fs => Negotiation.formatsForFlavors t fs
  | flavorsForFormats t ids => Negotiation.flavorsForFormats t ids
  | flavorSet t ids => Negotiation.flavorSet t ids
  | flavorsSorted t r ids => Negotiation.flavorsSorted t r ids
  | compare r a b => r.compare a b
  | sort r fs => r.sort fs
  | best r fs => r.best? fs
  | exportFrom e source f id => (e.exportFrom source f id).outcome
  | importBytes e bytes f id locale? => (e.importBytes bytes f id locale?).outcome
  | importStream e s f id locale? => (e.importStream s f id locale?).outcome

/-- What has been decided after calls made one after the other, nothing being decided before. -/
def after (calls : List Call) : SubtypeMemo :=
  calls.foldl (fun memo call => (call.ask.run memo).2) .empty

/-- Every call is settled by being made once. -/
theorem settling_ask (call : Call) : Settling call.ask := by
  cases call with
  | question c q => exact q.settling_ask c
  | isConvertible f => exact Negotiation.settling_isConvertible f
  | formatsForFlavors t fs => exact Negotiation.settling_formatsForFlavors t fs
  | flavorsForFormats t ids => exact Negotiation.settling_flavorsForFormats t ids
  | flavorSet t ids => exact Negotiation.settling_flavorSet t ids
  | flavorsSorted t r ids => exact Negotiation.settling_flavorsSorted t r ids
  | compare r a b => exact r.settling_compare a b
  | sort r fs => exact r.settling_sort fs
  | best r fs => exact r.settling_best? fs
  | exportFrom e source f id => exact e.settling_exportFrom f id source
  | importBytes e bytes f id locale? => exact e.settling_importBytes f id locale? bytes
  | importStream e s f id locale? => exact e.settling_importStream f id locale? s

theorem after_append_cons (before : List Call) (call : Call) (between : List Call) :
    after (before ++ call :: between)
      = between.foldl (fun memo call => (call.ask.run memo).2) (call.ask.run (after before)).2 := by
  rw [after, List.foldl_append, List.foldl_cons]
  rfl

/-- Calls forget nothing. -/
theorem extends_foldl (calls : List Call) (memo : SubtypeMemo) :
    Extends memo (calls.foldl (fun memo call => (call.ask.run memo).2) memo) := by
  induction calls generalizing memo with
  | nil => exact Extends.refl memo
  | cons call calls ih => exact (call.settling_ask.grows memo).trans (ih _)

/-- What a call leaves behind is still there after others. -/
theorem extends_after (before : List Call) (call : Call) (between : List Call) :
    Extends (call.ask.run (after before)).2 (after (before ++ call :: between)) := by
  rw [after_append_cons]
  exact extends_foldl between _

/-- **Whatever is asked once is answered in the same way for ever.** A subtype that was looked up by
any question is answered for as it was then; the subtypes known beforehand are answered for as they
are known; a flavor that has been found to be one kind of text is never found to be the other; and
every call, negotiation, ranking and conversion among them, has the result that it had at first. -/
theorem answers_settled :
    (∀ before c q between subtype first, Question.lookup? q = some (subtype, first) → ∀ second,
      ((SubtypeMemo.supportsCharset subtype second).run
          (after (before ++ question c q :: between))).1
        = ((SubtypeMemo.supportsCharset subtype first).run (after before)).1) ∧
    (∀ calls subtype answer, SubtypeMemo.seeded? subtype = some answer → ∀ hasCharset,
      ((SubtypeMemo.supportsCharset subtype hasCharset).run (after calls)).1 = answer) ∧
    (∀ before c f between, ((TextClassifier.isCharsetText f).run (after before)).1 = true →
      ((TextClassifier.isOtherText f).run
        (after (before ++ question c (.isCharsetText f) :: between))).1 = false) ∧
    (∀ before c f between, ((TextClassifier.isOtherText f).run (after before)).1 = true →
      ((TextClassifier.isCharsetText f).run
        (after (before ++ question c (.isOtherText f) :: between))).1 = false) ∧
    ∀ before (call : Call) between,
      (call.ask.run (after (before ++ call :: between))).1 = (call.ask.run (after before)).1 := by
  refine ⟨?_, ?_, ?_, ?_, ?_⟩
  · intro before c q between subtype first hlookup second
    have hgrown := extends_after before (question c q) between
    rw [ask, Question.snd_run_ask, hlookup] at hgrown
    have hknown := hgrown _ _ (SubtypeMemo.find?_supportsCharset subtype first (after before))
    rw [SubtypeMemo.supportsCharset_of_find? hknown]
  · intro calls subtype answer hseeded hasCharset
    rw [SubtypeMemo.supportsCharset_seeded hseeded]
  · intro before c f between hcharsetText
    exact TextClassifier.isOtherText_of_isCharsetText hcharsetText
      (extends_after before (question c (.isCharsetText f)) between)
  · intro before c f between hother
    exact TextClassifier.isCharsetText_of_isOtherText hother
      (extends_after before (question c (.isOtherText f)) between)
  · intro before call between
    rw [call.settling_ask.again (extends_after before call between)]

/-- A subtype that is not known is first met in a flavor with a charset: it is taken to have one from
then on, also of a flavor without, and the flavor without is charset text from then on, although it
would not have been before. -/
theorem answers_settled_note :
    let c : TextClassifier := ⟨"UTF-8"⟩
    let note := Flavor.ofParts "text" "x-note" [(Flavor.charsetParam, "UTF-8")] .reader
    let bare := Flavor.ofParts "text" "x-note" [] .stream
    let ranking : Call := .compare ⟨c, "UTF-8", .best⟩ note bare
    let calls := [Call.question c (.isText note), ranking, .question c (.isOtherText bare)]
    ((SubtypeMemo.supportsCharset "x-note" false).run (after [])).1 = false ∧
      ((SubtypeMemo.supportsCharset "x-note" false).run (after calls)).1 = true ∧
      ((SubtypeMemo.supportsCharset "rtf" true).run (after calls)).1 = false ∧
      ((TextClassifier.isCharsetText bare).run (after calls)).1 = true ∧
      ((TextClassifier.isOtherText bare).run
        (after (calls ++ [.question c (.isCharsetText bare)]))).1 = false ∧
      (ranking.ask.run (after calls)).1 = (ranking.ask.run (after [.question c (.isText note)])).1 := by
  intro c note bare ranking calls
  obtain ⟨hsubtype, hseeded, hother, -, hagain⟩ := answers_settled
  have hnote : calls = [] ++ question c (.isText note) :: [ranking, .question c (.isOtherText bare)] :=
    rfl
  have hranking : calls = [question c (.isText note)] ++ ranking :: [.question c (.isOtherText bare)] :=
    rfl
  have hlookup : Question.lookup? (.isText note) = some ("x-note", true) := by decide +kernel
  have hfirst : ((SubtypeMemo.supportsCharset "x-note" true).run (after [])).1 = true := by
    decide +kernel
  have hbare : ((TextClassifier.isCharsetText bare).run (after calls)).1 = true := by decide +kernel
  refine ⟨by decide +kernel, ?_, hseeded calls "rtf" false (by decide) true, hbare,
    hother calls c bare [] hbare, ?_⟩
  · rw [hnote, hsubtype [] c (.isText note) _ "x-note" true hlookup false, hfirst]
  · rw [hranking, hagain]

end Call

end Clipboard
