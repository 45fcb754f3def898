import Clipboard.NativeText.Reencoder
import Clipboard.Proofs.CharReader
import Clipboard.Proofs.LineEnd

/-!
# What text a native text holds

`textOf` says what text the characters of a native text stand for: those before the terminator, with
line feeds for line ends. A `Reencoder` over a source that does not fail reads this text
(`readRest_of_feeds`).

## The invariant

`FeedsTo r cs ending` says which characters are still to come, those put back before those of the
source, and how the source ends behind them; all the reading steps are described by what they do to
`cs`. `Feeds r cs` says that no failure stands behind them.

A change of the reader that its characters do not depend on is `Unseen`.
-/

namespace Clipboard.NativeText

/-- The characters before the terminator; all of them if the format has none. -/
def untilNul (props : TextProperties) (cs : List Char) : List Char :=
  if 0 < props.terminators then cs.takeWhile (· ≠ '\x00') else cs

section

variable {props : TextProperties} {text : List Char}

theorem untilNul_append (h : '\x00' ∉ text) (rest : List Char) :
    untilNul props (text ++ rest) = text ++ untilNul props rest := by
  rw [untilNul, untilNul]
  split
  · refine List.takeWhile_append_of_pos (fun c hc => decide_eq_true ?_)
    rintro rfl
    exact h hc
  · rfl

theorem untilNul_of_not_mem (h : '\x00' ∉ text) : untilNul props text = text := by
  rw [← List.append_nil text, untilNul_append h, untilNul]
  simp

theorem untilNul_terminated (hpos : 0 < props.terminators) (h : '\x00' ∉ text) (junk : List Char) :
    untilNul props (text ++ '\x00' :: junk) = text := by
  rw [untilNul_append h, untilNul, if_pos hpos, List.takeWhile_cons_of_neg (by simp),
    List.append_nil]

end

/-- The text that the characters of a native text stand for. -/
def textOf (props : TextProperties) (cs : List Char) : List Char :=
  fromNativeLines props (untilNul props cs)

/-- The bytes, in the charset `target`, of the text that native bytes in the charset `source` stand
for. -/
def contentOf (source target : Charset) (props : TextProperties) (bytes : Bytes) : Bytes :=
  target.encode (textOf props (CharReader.new source (.ofBytes bytes)).readRest.1)

namespace Reencoder

/-- The reader with other characters to come. -/
def withInput (r : Reencoder) (source : CharReader) (ahead : List Char) : Reencoder :=
  { r with source, ahead }

/-- The characters still to come, and behind them an end that is no failure. -/
structure Feeds (r : Reencoder) (cs : List Char) : Prop where
  chars : r.ahead ++ r.source.readRest.1 = cs
  ends : r.source.readRest.2 = .endOfData

/-- The characters still to come, and how the source ends behind them. -/
structure FeedsTo (r : Reencoder) (cs : List Char) (ending : Ending) : Prop where
  chars : r.ahead ++ r.source.readRest.1 = cs
  ends : r.source.readRest.2 = ending

variable {r : Reencoder} {c : Char} {cs : List Char} {ending : Ending}

theorem feedsTo_endOfData_iff : r.FeedsTo cs .endOfData ↔ r.Feeds cs :=
  ⟨fun h => ⟨h.chars, h.ends⟩, fun h => ⟨h.chars, h.ends⟩⟩

/-! ## Characters of the source -/

/-- Of the end nothing is noticed as long as there are characters. -/
theorem nextChar_of_feedsTo_cons (h : r.FeedsTo (c :: cs) ending) :
    ∃ s a, r.nextChar = .ok (some c) (r.withInput s a) ∧ (r.withInput s a).FeedsTo cs ending := by
  obtain ⟨hchars, hends⟩ := h
  cases ha : r.ahead with
  | cons c' a =>
    rw [ha, List.cons_append, List.cons.injEq] at hchars
    obtain ⟨rfl, hcs⟩ := hchars
    exact ⟨r.source, a, by simp [nextChar, ha, withInput], hcs, hends⟩
  | nil =>
    rw [ha, List.nil_append] at hchars
    cases hc : r.source.readChar with
    | fault e s =>
      rw [CharReader.readRest_of_fault hc] at hchars
      cases hchars
    | ok c' s =>
      cases c' with
      | none =>
        rw [CharReader.readRest_of_end hc] at hchars
        cases hchars
      | some c' =>
        rw [CharReader.readRest_of_some hc] at hchars hends
        rw [List.cons.injEq] at hchars
        obtain ⟨rfl, hcs⟩ := hchars
        exact ⟨s, [], by simp [nextChar, ha, hc, withInput], hcs, hends⟩

theorem nextChar_of_nil (h : r.Feeds []) :
    ∃ s a, r.nextChar = .ok none (r.withInput s a) ∧ (r.withInput s a).Feeds [] := by
  obtain ⟨hchars, hends⟩ := h
  obtain ⟨ha, hnil⟩ := List.append_eq_nil_iff.mp hchars
  cases hc : r.source.readChar with
  | fault e s =>
    rw [CharReader.readRest_of_fault hc] at hends
    cases hends
  | ok c' s =>
    cases c' with
    | none =>
      have hs := (CharReader.exhausted_of_readChar hc).readRest
      exact ⟨s, [], by simp [nextChar, ha, hc, withInput], by simp [withInput, hs],
        by simp [withInput, hs]⟩
    | some c' =>
      rw [CharReader.readRest_of_some hc] at hnil
      cases hnil

/-! ## Looking ahead -/

/-- What is taken is off the front, and it is all that was expected just if that is what comes. A
failure behind the characters does no harm unless they end before it is clear what comes. -/
theorem lookAhead_of_feedsTo (expected : List Char) (h : r.FeedsTo cs ending)
    (hclear : ending = .endOfData ∨ ¬LineEnd.BreaksOff expected cs) :
    ∃ taken rest s a, lookAhead expected r = .ok taken (r.withInput s a) ∧ cs = taken ++ rest ∧
      (r.withInput s a).FeedsTo rest ending ∧ (taken = expected ↔ expected <+: cs) := by
  induction expected generalizing r cs with
  | nil => exact ⟨[], cs, r.source, r.ahead, rfl, rfl, h, by simp⟩
  | cons e es ih =>
    cases cs with
    | nil =>
      obtain rfl : ending = .endOfData :=
        hclear.resolve_right (fun hopen => hopen (LineEnd.breaksOff_nil (List.cons_ne_nil e es)))
      obtain ⟨s, a, hnext, hfeeds⟩ := nextChar_of_nil (feedsTo_endOfData_iff.mp h)
      exact ⟨[], [], s, a, by simp [lookAhead, hnext], rfl, feedsTo_endOfData_iff.mpr hfeeds,
        by simp⟩
    | cons c cs =>
      obtain ⟨s, a, hnext, hfeeds⟩ := nextChar_of_feedsTo_cons h
      -- the first character that differs is taken off, too
      by_cases hce : c = e
      · subst hce
        rw [LineEnd.breaksOff_cons_cons] at hclear
        obtain ⟨taken, rest, s', a', hlook, hcs, hfeeds', hiff⟩ := ih hfeeds hclear
        refine ⟨c :: taken, rest, s', a', ?_, by rw [hcs, List.cons_append], hfeeds', ?_⟩
        · rw [lookAhead, hnext]
          simp only [if_true, hlook, ReadResult.map_ok]
          rfl
        · rw [List.cons.injEq, List.cons_prefix_cons, hiff]
      · refine ⟨[c], cs, s, a, ?_, rfl, hfeeds, ?_⟩
        · simp [lookAhead, hnext, hce]
        · have hec : ¬e = c := fun he => hce he.symm
          simp [hce, List.cons_prefix_cons, hec]

/-- **A marker is found just if it is there**, and if it is not, nothing is lost. -/
theorem matchMarker_of_feedsTo (marker : List Char) (h : r.FeedsTo cs ending)
    (hclear : ending = .endOfData ∨ ¬LineEnd.BreaksOff marker (c :: cs)) :
    ∃ s a, matchMarker marker c r
        = .ok (decide (marker ≠ [] ∧ marker <+: c :: cs)) (r.withInput s a) ∧
      (r.withInput s a).FeedsTo
        (if marker ≠ [] ∧ marker <+: c :: cs then cs.drop (marker.length - 1) else cs) ending := by
  cases marker with
  | nil => exact ⟨r.source, r.ahead, by simp [matchMarker, withInput], by simpa [withInput] using h⟩
  | cons m ms =>
    by_cases hmc : m = c
    · subst hmc
      rw [LineEnd.breaksOff_cons_cons] at hclear
      obtain ⟨taken, rest, s, a, hlook, hcs, hfeeds, hiff⟩ := lookAhead_of_feedsTo ms h hclear
      by_cases hms : ms <+: cs
      · have htaken : taken = ms := hiff.mpr hms
        refine ⟨s, a, ?_, ?_⟩
        · simp [matchMarker, hlook, htaken, List.cons_prefix_cons, hms]
        · simpa [List.cons_prefix_cons, hms, hcs, htaken] using hfeeds
      -- what was taken in vain goes in front of what had been put back
      · have htaken : ¬taken = ms := fun he => hms (hiff.mp he)
        refine ⟨s, taken ++ a, ?_, ?_, hfeeds.ends⟩
        · simp [matchMarker, hlook, htaken, List.cons_prefix_cons, hms, withInput]
        · have hrest : a ++ s.readRest.1 = rest := hfeeds.chars
          rw [if_neg (by simp [List.cons_prefix_cons, hms]), hcs, ← hrest, ← List.append_assoc]
          rfl
    · refine ⟨r.source, r.ahead, ?_, ?_⟩
      · simp [matchMarker, hmc, List.cons_prefix_cons, withInput]
      · simpa [List.cons_prefix_cons, hmc, withInput] using h

/-! ## Characters of the text -/

/-- No marker reaches over the terminator. -/
def MarkerStops (r : Reencoder) : Prop := r.terminated = true → '\x00' ∉ r.eoln.getD []

/-- The characters before the terminator. -/
def cut (r : Reencoder) (cs : List Char) : List Char :=
  if r.terminated = true then cs.takeWhile (· ≠ '\x00') else cs

/-- The text still to come if these are the characters still to come. -/
def textAhead (r : Reencoder) (cs : List Char) : List Char :=
  if r.ended = true then [] else LineEnd.fromNative (r.eoln.getD []) (r.cut cs)

theorem cut_cons (h : ¬(r.terminated = true ∧ c = '\x00')) : r.cut (c :: cs) = c :: r.cut cs := by
  unfold cut
  split
  · next ht =>
    have hc : c ≠ '\x00' := fun hc => h ⟨ht, hc⟩
    simp [hc]
  · rfl

/-- Before the terminator there are the same markers. -/
theorem prefix_cut_iff (hstop : r.MarkerStops) :
    r.eoln.getD [] <+: r.cut cs ↔ r.eoln.getD [] <+: cs := by
  unfold cut
  split
  · next ht =>
    refine LineEnd.prefix_takeWhile_iff (fun x hx => ?_)
    have hx0 : x ≠ '\x00' := fun he => hstop ht (he ▸ hx)
    simpa using hx0
  · rfl

/-- What stands behind a marker is cut where the whole is. -/
theorem drop_cut (hstop : r.MarkerStops) (h : r.eoln.getD [] <+: cs) :
    (r.cut cs).drop (r.eoln.getD []).length = r.cut (cs.drop (r.eoln.getD []).length) := by
  obtain ⟨rest, rfl⟩ := h
  unfold cut
  split
  · next ht =>
    have hmarker : ∀ x ∈ r.eoln.getD [], decide (x ≠ '\x00') = true := by
      intro x hx
      have hx0 : x ≠ '\x00' := fun he => hstop ht (he ▸ hx)
      simpa using hx0
    rw [List.takeWhile_append_of_pos hmarker, List.drop_left, List.drop_left]
  · rfl

/-- The terminator ends the text. -/
theorem readChar_of_nul (h : r.FeedsTo (c :: cs) ending) (hnul : r.terminated = true ∧ c = '\x00') :
    ∃ s a, r.readChar = .ok none { r.withInput s a with ended := true } := by
  obtain ⟨s, a, hnext, -⟩ := nextChar_of_feedsTo_cons h
  exact ⟨s, a, by simp [readChar, hnext, withInput, hnul]⟩

/-- Any other character is one of the text, if it is clear whether a marker begins with it. -/
theorem readChar_of_feedsTo (h : r.FeedsTo (c :: cs) ending)
    (hnul : ¬(r.terminated = true ∧ c = '\x00'))
    (hclear : ending = .endOfData ∨ ¬LineEnd.BreaksOff (r.eoln.getD []) (c :: cs)) :
    ∃ s a, r.readChar = .ok
        (some (if r.eoln.getD [] ≠ [] ∧ r.eoln.getD [] <+: c :: cs then '\n' else c))
        (r.withInput s a) ∧
      (r.withInput s a).FeedsTo
        (if r.eoln.getD [] ≠ [] ∧ r.eoln.getD [] <+: c :: cs
          then cs.drop ((r.eoln.getD []).length - 1) else cs) ending := by
  obtain ⟨s, a, hnext, hfeeds⟩ := nextChar_of_feedsTo_cons h
  obtain ⟨s', a', hmatch, hfeeds'⟩ := matchMarker_of_feedsTo (r.eoln.getD []) hfeeds hclear
  have hread : r.readChar = (matchMarker (r.eoln.getD []) c (r.withInput s a)).map
      (fun found => some (if found then '\n' else c)) := by
    simp only [readChar, hnext]
    exact if_neg hnul
  refine ⟨s', a', ?_, hfeeds'⟩
  rw [hread, hmatch, ReadResult.map_ok]
  simp only [decide_eq_true_eq]
  rfl

/-- The text begins with a line end if a marker comes, and else with the character that comes. -/
theorem fromNative_cut_cons (hstop : r.MarkerStops) (hnul : ¬(r.terminated = true ∧ c = '\x00')) :
    LineEnd.fromNative (r.eoln.getD []) (r.cut (c :: cs)) =
      if r.eoln.getD [] ≠ [] ∧ r.eoln.getD [] <+: c :: cs then
        '\n' :: LineEnd.fromNative (r.eoln.getD [])
          (r.cut (cs.drop ((r.eoln.getD []).length - 1)))
      else c :: LineEnd.fromNative (r.eoln.getD []) (r.cut cs) := by
  have hmarker : r.eoln.getD [] <+: c :: r.cut cs ↔ r.eoln.getD [] <+: c :: cs := by
    rw [← cut_cons hnul]
    exact prefix_cut_iff hstop
  by_cases hfound : r.eoln.getD [] ≠ [] ∧ r.eoln.getD [] <+: c :: cs
  · obtain ⟨hne, hpre⟩ := hfound
    have hdrop := drop_cut hstop hpre
    have hlen : (r.eoln.getD []).length = (r.eoln.getD []).length - 1 + 1 := by
      have := List.length_pos_iff.mpr hne
      omega
    rw [cut_cons hnul, hlen, List.drop_succ_cons, List.drop_succ_cons] at hdrop
    rw [if_pos ⟨hne, hpre⟩, cut_cons hnul,
      LineEnd.fromNative_of_isPrefix hne (hmarker.mpr hpre), hdrop]
  · rw [if_neg hfound, cut_cons hnul]
    by_cases hne : r.eoln.getD [] = []
    · simp [hne]
    · exact LineEnd.fromNative_of_not_isPrefix (fun hpre => hfound ⟨hne, hmarker.mp hpre⟩)

/-! ## The whole text -/

theorem readRest_of_ended (h : r.ended = true) : r.readRest = ([], .endOfData) := by
  rw [readRest, if_pos h]

theorem readRest_of_fault {r' : Reencoder} {fault : ReadFault} (hended : r.ended = false)
    (h : r.readChar = .fault fault r') : r.readRest = ([], .failure fault) := by
  rw [readRest, if_neg (by simp [hended])]
  split
  · next h' => rw [h] at h'; cases h'; rfl
  · next h' => rw [h] at h'; cases h'
  · next h' => rw [h] at h'; cases h'

theorem readRest_of_end {r' : Reencoder} (hended : r.ended = false)
    (h : r.readChar = .ok none r') : r.readRest = ([], .endOfData) := by
  rw [readRest, if_neg (by simp [hended])]
  split
  · next h' => rw [h] at h'; cases h'
  · rfl
  · next h' => rw [h] at h'; cases h'

theorem readRest_of_some {r' : Reencoder} (hended : r.ended = false)
    (h : r.readChar = .ok (some c) r') : r.readRest = (c :: r'.readRest.1, r'.readRest.2) := by
  rw [readRest, if_neg (by simp [hended])]
  split
  · next h' => rw [h] at h'; cases h'
  · next h' => rw [h] at h'; cases h'
  · next h' =>
    rw [h] at h'
    cases h'
    rfl

/-- The text is over before the source fails, if that fails at all. -/
def EndsWell (r : Reencoder) (cs : List Char) (ending : Ending) : Prop :=
  ending = .endOfData ∨ (r.terminated = true ∧ '\x00' ∈ cs)

/-- Where there is a terminator to come it is clear where markers are. -/
theorem EndsWell.clear (hstop : r.MarkerStops) (h : r.EndsWell cs ending) :
    ending = .endOfData ∨ ¬LineEnd.BreaksOff (r.eoln.getD []) cs := by
  refine h.imp_right ?_
  rintro ⟨hterminated, hmem⟩ hbreaks
  exact hstop hterminated (hbreaks.1.subset hmem)

theorem EndsWell.tail (hnul : ¬(r.terminated = true ∧ c = '\x00'))
    (h : r.EndsWell (c :: cs) ending) : r.EndsWell cs ending := by
  refine h.imp_right ?_
  rintro ⟨hterminated, hmem⟩
  refine ⟨hterminated, (List.mem_cons.mp hmem).resolve_left ?_⟩
  rintro rfl
  exact hnul ⟨hterminated, rfl⟩

/-- The terminator is not part of a marker. -/
theorem EndsWell.drop (hstop : r.MarkerStops) (hpre : r.eoln.getD [] <+: cs)
    (h : r.EndsWell cs ending) : r.EndsWell (cs.drop (r.eoln.getD []).length) ending := by
  refine h.imp_right ?_
  rintro ⟨hterminated, hmem⟩
  obtain ⟨rest, rfl⟩ := hpre
  rw [List.drop_left]
  exact ⟨hterminated, (List.mem_append.mp hmem).resolve_left (hstop hterminated)⟩

/-- **The text of a source** is read up to the terminator, whatever comes behind that. -/
theorem readRest_of_feedsTo (hstop : r.MarkerStops) (h : r.FeedsTo cs ending)
    (hends : r.EndsWell cs ending) (hended : r.ended = false) :
    r.readRest = (LineEnd.fromNative (r.eoln.getD []) (r.cut cs), .endOfData) := by
  induction hn : cs.length using Nat.strongRecOn generalizing r cs with
  | _ n ih =>
    cases cs with
    | nil =>
      obtain rfl : ending = .endOfData := hends.resolve_right (fun hnul => by cases hnul.2)
      obtain ⟨s, a, hnext, -⟩ := nextChar_of_nil (feedsTo_endOfData_iff.mp h)
      have hread : r.readChar = .ok none { r.withInput s a with ended := true } := by
        simp [readChar, hnext]
      rw [readRest_of_end hended hread]
      simp [cut]
    | cons c cs =>
      rw [List.length_cons] at hn
      by_cases hnul : r.terminated = true ∧ c = '\x00'
      · obtain ⟨s, a, hread⟩ := readChar_of_nul h hnul
        rw [readRest_of_end hended hread]
        simp [cut, hnul]
      · obtain ⟨s, a, hread, hfeeds⟩ := readChar_of_feedsTo h hnul (hends.clear hstop)
        rw [readRest_of_some hended hread, fromNative_cut_cons hstop hnul]
        by_cases hfound : r.eoln.getD [] ≠ [] ∧ r.eoln.getD [] <+: c :: cs
        · obtain ⟨hne, hpre⟩ := hfound
          have hlength : (r.eoln.getD []).length = (r.eoln.getD []).length - 1 + 1 :=
            (Nat.sub_add_cancel (List.length_pos_iff.mpr hne)).symm
          have hdrop := hends.drop hstop hpre
          rw [hlength, List.drop_succ_cons] at hdrop
          rw [if_pos ⟨hne, hpre⟩] at hfeeds ⊢
          rw [if_pos ⟨hne, hpre⟩, ih _ (by rw [List.length_drop]; omega) (r := r.withInput s a) hstop
            hfeeds hdrop hended rfl]
          rfl
        · rw [if_neg hfound] at hfeeds ⊢
          rw [if_neg hfound, ih _ (by omega) (r := r.withInput s a) hstop hfeeds (hends.tail hnul)
            hended rfl]
          rfl

/-- Read to its end, the reader gives the text still to come. -/
theorem readRest_of_feeds {text : List Char} (hstop : r.MarkerStops) (h : r.Feeds cs)
    (ht : r.textAhead cs = text) : r.readRest = (text, .endOfData) := by
  rw [← ht, textAhead]
  split
  · next hended => exact readRest_of_ended hended
  · next hended =>
    exact readRest_of_feedsTo hstop (feedsTo_endOfData_iff.mpr h) (Or.inl rfl) (by simpa using hended)

/-! ## What the characters do not depend on -/

/-- A change of the reader that makes no difference to the characters: it can be made before they are
read as well as afterwards. -/
structure Unseen (f : Reencoder → Reencoder) : Prop where
  nextChar : ∀ r, (f r).nextChar = r.nextChar.mapRest f
  putBack : ∀ r ahead, f { r with ahead } = { f r with ahead }
  finish : ∀ r, f { r with ended := true } = { f r with ended := true }
  ahead : ∀ r, (f r).ahead = r.ahead
  ended : ∀ r, (f r).ended = r.ended
  terminated : ∀ r, (f r).terminated = r.terminated
  eoln : ∀ r, (f r).eoln = r.eoln

variable {f : Reencoder → Reencoder}

theorem lookAhead_of_unseen (hf : Unseen f) (expected : List Char) (r : Reencoder) :
    lookAhead expected (f r) = (lookAhead expected r).mapRest f := by
  induction expected generalizing r with
  | nil => rfl
  | cons e es ih =>
    rw [lookAhead, lookAhead, hf.nextChar]
    cases r.nextChar with
    | fault fault r₁ => rfl
    | ok c r₁ =>
      cases c with
      | none => rfl
      | some c =>
        simp only [ReadResult.mapRest_ok, ih, ReadResult.map_mapRest]
        split <;> rfl

theorem matchMarker_of_unseen (hf : Unseen f) (marker : List Char) (first : Char) (r : Reencoder) :
    matchMarker marker first (f r) = (matchMarker marker first r).mapRest f := by
  cases marker with
  | nil => rfl
  | cons m ms =>
    rw [matchMarker, matchMarker, lookAhead_of_unseen hf]
    split
    · rfl
    · cases lookAhead ms r with
      | fault fault r₁ => rfl
      | ok taken r₁ =>
        simp only [ReadResult.mapRest_ok, hf.ahead]
        split
        · rfl
        · exact congrArg (ReadResult.ok false) (hf.putBack r₁ _).symm

theorem readChar_of_unseen (hf : Unseen f) (r : Reencoder) :
    (f r).readChar = r.readChar.mapRest f := by
  rw [readChar, readChar, hf.nextChar]
  cases r.nextChar with
  | fault fault r₁ => rfl
  | ok c r₁ =>
    cases c with
    | none => exact congrArg (ReadResult.ok none) (hf.finish r₁).symm
    | some c =>
      simp only [ReadResult.mapRest_ok]
      by_cases hnul : r₁.terminated = true ∧ c = '\x00'
      · have hnul' : (f r₁).terminated = true ∧ c = '\x00' := by rwa [hf.terminated]
        rw [if_pos hnul, if_pos hnul']
        exact congrArg (ReadResult.ok none) (hf.finish r₁).symm
      · have hnul' : ¬((f r₁).terminated = true ∧ c = '\x00') := by rwa [hf.terminated]
        rw [if_neg hnul, if_neg hnul', hf.eoln, matchMarker_of_unseen hf, ReadResult.map_mapRest]

theorem readRest_of_unseen (hf : Unseen f) (r : Reencoder) : (f r).readRest = r.readRest := by
  induction hn : r.remaining using Nat.strongRecOn generalizing r with
  | _ n ih =>
    have hended := hf.ended r
    have hchar := readChar_of_unseen hf r
    cases h : r.ended with
    | true => rw [readRest_of_ended h, readRest_of_ended (hended.trans h)]
    | false =>
      cases hread : r.readChar with
      | fault fault r' =>
        rw [hread] at hchar
        rw [readRest_of_fault h hread, readRest_of_fault (hended.trans h) hchar]
      | ok c r' =>
        rw [hread] at hchar
        cases c with
        | none => rw [readRest_of_end h hread, readRest_of_end (hended.trans h) hchar]
        | some c =>
          have hlt := remaining_of_readChar hread
          rw [readRest_of_some h hread, readRest_of_some (hended.trans h) hchar,
            ih r'.remaining (hn ▸ hlt) r' rfl]

/-- What is done with the characters makes no difference to them. -/
theorem unseen_output (encoder : Charset.Encoder) (pending : Bytes) :
    Unseen (fun r => { r with encoder, pending }) where
  nextChar r := by
    cases h : r.ahead <;> simp [Reencoder.nextChar, h, ReadResult.mapRest_mapRest]
  putBack _ _ := rfl
  finish _ := rfl
  ahead _ := rfl
  ended _ := rfl
  terminated _ := rfl
  eoln _ := rfl

/-- Reading a character encodes nothing. -/
theorem output_of_readChar {r r' : Reencoder} {c : Option Char} (h : r.readChar = .ok c r') :
    r'.encoder = r.encoder ∧ r'.pending = r.pending := by
  have hsame := readChar_of_unseen (unseen_output r.encoder r.pending) r
  rw [h, ReadResult.mapRest_ok, ReadResult.ok.injEq] at hsame
  exact ⟨by rw [hsame.2], by rw [hsame.2]⟩

/-- The end of the text is final. -/
theorem ended_of_readChar {r r' : Reencoder} (h : r.readChar = .ok none r') : r'.ended = true := by
  unfold readChar at h
  split at h
  · cases h
  · cases h
    rfl
  · next c r₁ _ =>
    split at h
    · cases h
      rfl
    · cases hm : matchMarker (r₁.eoln.getD []) c r₁ <;> simp [hm] at h

end Reencoder

end Clipboard.NativeText
