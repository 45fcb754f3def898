import Clipboard.LineEnd

/-!
# Line ends there and back

A marker that begins with none of its own ends (`Unbordered`) is found again wherever it was put:
`fromNative_toNative_eq` says that a text with its line ends put in is read back as the text itself is,
and `fromNative_toNative` gives back every text in which the marker does not occur. Without that a match
could begin in the text and end in a marker put behind it (`exists_border`).

Putting in line ends twice is putting them in once for any marker (`toNative_toNative`).
-/

namespace Clipboard.LineEnd

variable {marker : List Char}

/-- No part of the marker, neither empty nor all of it, stands both at its front and at its end. -/
def Unbordered (marker : List Char) : Prop :=
  ∀ p, p ≠ [] → p <+: marker → p <:+ marker → p = marker

theorem unbordered_iff :
    Unbordered marker ↔ ∀ n < marker.length, 0 < n → ¬marker.take n <:+ marker := by
  constructor
  · intro h n hlt hpos hsuffix
    have hne : marker.take n ≠ [] := by
      rw [Ne, List.take_eq_nil_iff]
      rintro (rfl | rfl)
      · exact Nat.lt_irrefl 0 hpos
      · exact Nat.not_lt_zero n hlt
    have hlength := congrArg List.length (h _ hne (List.take_prefix n marker) hsuffix)
    rw [List.length_take] at hlength
    omega
  · intro h p hne hprefix hsuffix
    by_cases hlt : p.length < marker.length
    · rw [List.prefix_iff_eq_take.mp hprefix] at hsuffix
      exact absurd hsuffix (h p.length hlt (List.length_pos_iff.mpr hne))
    · exact hprefix.eq_of_length_le (by omega)

instance (marker : List Char) : Decidable (Unbordered marker) :=
  decidable_of_iff _ unbordered_iff.symm

/-! ## Line feeds for markers -/

@[simp] theorem fromNative_nil (marker : List Char) : fromNative marker [] = [] := by
  rw [fromNative]

/-- An empty marker changes nothing. -/
@[simp] theorem fromNative_empty (text : List Char) : fromNative [] text = text := by
  cases text with
  | nil => simp
  | cons c cs => rw [fromNative, if_pos (by rfl)]

theorem fromNative_of_isPrefix {c : Char} {cs : List Char} (hne : marker ≠ [])
    (h : marker <+: c :: cs) :
    fromNative marker (c :: cs) = '\n' :: fromNative marker (cs.drop (marker.length - 1)) := by
  rw [fromNative, if_neg (by simpa using hne), if_pos (List.isPrefixOf_iff_prefix.mpr h)]

/-- Nothing begins with everything. -/
theorem ne_nil_of_not_isPrefix {text : List Char} (h : ¬marker <+: text) : marker ≠ [] := by
  rintro rfl
  exact h List.nil_prefix

theorem fromNative_of_not_isPrefix {c : Char} {cs : List Char} (h : ¬marker <+: c :: cs) :
    fromNative marker (c :: cs) = c :: fromNative marker cs := by
  have hne := ne_nil_of_not_isPrefix h
  rw [fromNative, if_neg (by simpa using hne),
    if_neg (by simpa [List.isPrefixOf_iff_prefix] using h)]

theorem fromNative_marker_append (hne : marker ≠ []) (text : List Char) :
    fromNative marker (marker ++ text) = '\n' :: fromNative marker text := by
  cases marker with
  | nil => exact absurd rfl hne
  | cons m ms =>
    have hpre : m :: ms <+: m :: (ms ++ text) := List.prefix_append (m :: ms) text
    rw [List.cons_append, fromNative_of_isPrefix hne hpre]
    simp

/-- A marker of characters that are not dropped is looked for in vain behind the first that is. -/
theorem prefix_takeWhile_iff {p : Char → Bool} {text : List Char} (h : ∀ c ∈ marker, p c = true) :
    marker <+: text.takeWhile p ↔ marker <+: text := by
  constructor
  · exact fun hpre => hpre.trans (List.takeWhile_prefix p)
  · rintro ⟨rest, rfl⟩
    rw [List.takeWhile_append_of_pos h]
    exact List.prefix_append _ _

/-- A character that no marker has stays behind whatever it stands behind. -/
theorem fromNative_concat {x : Char} (hx : x ∉ marker) (text : List Char) :
    fromNative marker (text ++ [x]) = fromNative marker text ++ [x] := by
  by_cases hne : marker = []
  · simp [hne]
  have hpre (cs : List Char) : marker <+: cs ++ [x] ↔ marker <+: cs := by
    rw [List.prefix_concat_iff]
    refine ⟨?_, Or.inr⟩
    rintro (rfl | h)
    · simp at hx
    · exact h
  induction hn : text.length using Nat.strongRecOn generalizing text with
  | _ n ih =>
    cases text with
    | nil =>
      have hlone : ¬marker <+: [x] := fun h => hne (List.prefix_nil.mp ((hpre []).mp h))
      rw [List.nil_append, fromNative_of_not_isPrefix hlone, fromNative_nil, List.nil_append]
    | cons c cs =>
      rw [List.length_cons] at hn
      have hcons : marker <+: c :: (cs ++ [x]) ↔ marker <+: c :: cs := hpre (c :: cs)
      by_cases h : marker <+: c :: cs
      · have hlength : marker.length - 1 ≤ cs.length := by
          have := h.length_le
          rw [List.length_cons] at this
          omega
        rw [List.cons_append, fromNative_of_isPrefix hne (hcons.mpr h),
          fromNative_of_isPrefix hne h, List.drop_append_of_le_length hlength,
          ih _ (by rw [List.length_drop]; omega) _ rfl, List.cons_append]
      · rw [List.cons_append, fromNative_of_not_isPrefix (fun hp => h (hcons.mp hp)),
          fromNative_of_not_isPrefix h, ih _ (by omega) _ rfl, List.cons_append]

theorem not_infix_of_cons {c : Char} {cs : List Char} (h : ¬marker <:+: c :: cs) :
    ¬marker <:+: cs := fun hin => h (hin.trans (List.suffix_cons c cs).isInfix)

/-- Where no marker is, there is nothing to be replaced. -/
theorem fromNative_of_not_infix {text : List Char} (h : ¬marker <:+: text) :
    fromNative marker text = text := by
  induction text with
  | nil => simp
  | cons c cs ih =>
    have hpre : ¬marker <+: c :: cs := fun hp => h hp.isInfix
    rw [fromNative_of_not_isPrefix hpre, ih (not_infix_of_cons h)]

/-! ## Texts that break off -/

/-- The text is over in the middle of a marker, or in front of it. -/
def BreaksOff (marker text : List Char) : Prop := text <+: marker ∧ text ≠ marker

instance (marker text : List Char) : Decidable (BreaksOff marker text) :=
  inferInstanceAs (Decidable (_ ∧ _))

theorem breaksOff_nil (hne : marker ≠ []) : BreaksOff marker [] := ⟨List.nil_prefix, hne.symm⟩

theorem breaksOff_cons_cons {c : Char} {cs ms : List Char} :
    BreaksOff (c :: ms) (c :: cs) ↔ BreaksOff ms cs := by
  simp [BreaksOff, List.cons_prefix_cons]

/-- Line feeds for the markers as far as it is clear where they are, and the beginning of a marker with
which the text breaks off, if it does. -/
def fromUnfinished (marker text : List Char) : List Char × List Char :=
  match text with
  | [] => ([], [])
  | c :: cs =>
    if BreaksOff marker (c :: cs) then ([], c :: cs)
    else if marker ≠ [] ∧ marker <+: c :: cs then
      (fromUnfinished marker (cs.drop (marker.length - 1))).map ('\n' :: ·) id
    else (fromUnfinished marker cs).map (c :: ·) id
termination_by text.length
decreasing_by all_goals grind

theorem BreaksOff.not_infix {text : List Char} (h : BreaksOff marker text) : ¬marker <:+: text :=
  fun hin => h.2 (h.1.eq_of_length_le hin.length_le)

/-- What is not clear is kept as it is if no more comes. -/
theorem fromNative_eq_fromUnfinished (marker text : List Char) :
    fromNative marker text = (fromUnfinished marker text).1 ++ (fromUnfinished marker text).2 := by
  fun_induction fromUnfinished marker text with
  | case1 => simp
  | case2 c cs hbreaks =>
    have hkept := fromNative_of_not_infix hbreaks.not_infix
    rw [hkept, List.nil_append]
  | case3 c cs _ hfound ih =>
    rw [fromNative_of_isPrefix hfound.1 hfound.2, ih]
    rfl
  | case4 c cs _ hfound ih =>
    by_cases hne : marker = []
    · subst hne
      rw [fromNative_empty] at ih ⊢
      exact congrArg (c :: ·) ih
    · rw [fromNative_of_not_isPrefix (fun hpre => hfound ⟨hne, hpre⟩), ih]
      rfl

theorem fromUnfinished_snd (marker text : List Char) :
    (fromUnfinished marker text).2 <:+ text ∧
      ((fromUnfinished marker text).2 ≠ [] → BreaksOff marker (fromUnfinished marker text).2) := by
  fun_induction fromUnfinished marker text with
  | case1 => exact ⟨List.suffix_rfl, fun hne => absurd rfl hne⟩
  | case2 c cs hbreaks => exact ⟨List.suffix_rfl, fun _ => hbreaks⟩
  | case3 c cs _ hfound ih =>
    exact ⟨(ih.1.trans (List.drop_suffix _ _)).trans (List.suffix_cons c cs), ih.2⟩
  | case4 c cs _ hfound ih => exact ⟨ih.1.trans (List.suffix_cons c cs), ih.2⟩

/-! ## Markers for line feeds -/

/-- The marker for every line feed, the text being looked at nowhere else. -/
def expand (marker text : List Char) : List Char :=
  text.flatMap (fun c => if c = '\n' then marker else [c])

@[simp] theorem expand_nil (marker : List Char) : expand marker [] = [] := rfl

theorem expand_cons (marker : List Char) (c : Char) (cs : List Char) :
    expand marker (c :: cs) = (if c = '\n' then marker else [c]) ++ expand marker cs := rfl

theorem mem_expand {c : Char} {text : List Char} (h : c ∈ expand marker text) :
    c ∈ marker ∨ c ∈ text := by
  obtain ⟨x, hx, hc⟩ := List.mem_flatMap.mp h
  split at hc
  · exact Or.inl hc
  · rw [List.mem_singleton] at hc
    exact Or.inr (hc ▸ hx)

theorem toNative_of_not_isPrefix {c : Char} {cs : List Char} (h : ¬marker <+: c :: cs) :
    toNative marker (c :: cs) = (if c = '\n' then marker else [c]) ++ toNative marker cs := by
  have hne := ne_nil_of_not_isPrefix h
  rw [toNative, if_neg (by simpa using hne), if_neg (by simpa [List.isPrefixOf_iff_prefix] using h)]

/-- Where no marker is, there is none to be kept. -/
theorem toNative_eq_expand {text : List Char} (h : ¬marker <:+: text) :
    toNative marker text = expand marker text := by
  induction text with
  | nil => rw [toNative, expand_nil]
  | cons c cs ih =>
    have hpre : ¬marker <+: c :: cs := fun hp => h hp.isInfix
    rw [toNative_of_not_isPrefix hpre, ih (not_infix_of_cons h), expand_cons]

/-- A text is left as it is up to the first marker, be it kept or put in, and the line before that has
no line feed. -/
theorem exists_toNative_eq (hne : marker ≠ []) (text : List Char) : ∃ line, line <+: text ∧
    '\n' ∉ line ∧
    (toNative marker text = line ∨ ∃ more, toNative marker text = line ++ (marker ++ more)) := by
  have hnil : '\n' ∉ ([] : List Char) := List.not_mem_nil
  fun_induction toNative marker text with
  | case1 => exact ⟨[], List.nil_prefix, hnil, Or.inl rfl⟩
  | case2 c cs hempty => exact absurd (List.isEmpty_iff.mp hempty) hne
  | case3 c cs hempty hpre ih => exact ⟨[], List.nil_prefix, hnil, Or.inr ⟨_, rfl⟩⟩
  | case4 c cs hempty hpre ih =>
    by_cases hc : c = '\n'
    · exact ⟨[], List.nil_prefix, hnil, Or.inr ⟨_, by rw [if_pos hc, List.nil_append]⟩⟩
    · obtain ⟨line, hline, hfeed, hcs⟩ := ih
      rw [if_neg hc, List.singleton_append]
      refine ⟨c :: line, (List.prefix_cons_inj c).mpr hline, ?_, ?_⟩
      · simpa [hfeed] using Ne.symm hc
      rcases hcs with hcs | ⟨more, hcs⟩
      · exact Or.inl (by rw [hcs])
      · exact Or.inr ⟨more, by rw [hcs, List.cons_append]⟩

/-- Where a marker begins only afterwards, it ends in a part of the one that is put behind the line,
which is a part of its own front. -/
theorem exists_border {c : Char} {cs : List Char} (h : ¬marker <+: c :: cs)
    (hpre : marker <+: c :: toNative marker cs) :
    ∃ line p, '\n' ∉ line ∧ p ≠ [] ∧ p <+: marker ∧ marker = c :: line ++ p := by
  obtain ⟨line, hline, hfeed, hcs⟩ := exists_toNative_eq (ne_nil_of_not_isPrefix h) cs
  have hfront : c :: line <+: c :: cs := (List.prefix_cons_inj c).mpr hline
  rcases hcs with hcs | ⟨more, hcs⟩
  · rw [hcs] at hpre
    exact absurd (hpre.trans hfront) h
  · rw [hcs, ← List.cons_append] at hpre
    rcases List.prefix_or_prefix_of_prefix hpre (List.prefix_append _ _) with hin | ⟨p, hp⟩
    · exact absurd (hin.trans hfront) h
    · rw [← hp, List.prefix_append_right_inj, hp] at hpre
      refine ⟨line, p, hfeed, ?_, ?_, hp.symm⟩
      · rintro rfl
        rw [List.append_nil] at hp
        exact h (hp ▸ hfront)
      · have hsuffix : p <:+ marker := ⟨c :: line, hp⟩
        exact List.prefix_of_prefix_length_le hpre (List.prefix_append _ _) hsuffix.length_le

/-- Where no marker begins none does so afterwards, not even one that ends in a marker put behind. -/
theorem not_prefix_toNative {c : Char} {cs : List Char} (hb : Unbordered marker)
    (h : ¬marker <+: c :: cs) : ¬marker <+: c :: toNative marker cs := by
  intro hpre
  obtain ⟨line, p, -, hne, hprefix, hmarker⟩ := exists_border h hpre
  have hlength := congrArg List.length hmarker
  rw [hb p hne hprefix ⟨c :: line, hmarker.symm⟩] at hlength
  simp only [List.length_append, List.length_cons] at hlength
  omega

/-- Nor does a marker with a line feed, though it may begin with its own end: its first line feed
would have to stand at two places. -/
theorem not_prefix_toNative_of_mem {c : Char} {cs : List Char} (hmem : '\n' ∈ marker) (hc : c ≠ '\n')
    (h : ¬marker <+: c :: cs) : ¬marker <+: c :: toNative marker cs := by
  intro hpre
  obtain ⟨line, p, hline, -, ⟨more, hmore⟩, hmarker⟩ := exists_border h hpre
  have hfront : '\n' ∉ c :: line := by simpa [hline] using Ne.symm hc
  have hp : '\n' ∈ p := by
    rw [hmarker] at hmem
    exact (List.mem_append.mp hmem).resolve_left hfront
  have hfirst : marker.idxOf '\n' = p.idxOf '\n' := by
    rw [← hmore, List.idxOf_append, if_pos hp]
  have hagain : marker.idxOf '\n' = p.idxOf '\n' + (c :: line).length := by
    rw [hmarker, List.idxOf_append, if_neg hfront]
  rw [List.length_cons] at hagain
  omega

/-- Line ends that are put into a text are found again, those that were there are found where they
were, and nothing else is taken for one. -/
theorem fromNative_toNative_eq (hb : Unbordered marker) (text : List Char) :
    fromNative marker (toNative marker text) = fromNative marker text := by
  fun_induction toNative marker text with
  | case1 => rfl
  | case2 c cs hempty => rfl
  | case3 c cs hempty hstands ih =>
    have hne : marker ≠ [] := by simpa using hempty
    have hpre : marker <+: c :: cs := List.isPrefixOf_iff_prefix.mp hstands
    rw [fromNative_marker_append hne, ih, fromNative_of_isPrefix hne hpre]
  | case4 c cs hempty hstands ih =>
    have hne : marker ≠ [] := by simpa using hempty
    have hpre : ¬marker <+: c :: cs := by simpa [List.isPrefixOf_iff_prefix] using hstands
    rw [fromNative_of_not_isPrefix hpre]
    by_cases hc : c = '\n'
    · rw [if_pos hc, fromNative_marker_append hne, ih, hc]
    · rw [if_neg hc, List.singleton_append,
        fromNative_of_not_isPrefix (not_prefix_toNative hb hpre), ih]

/-- **Line ends that are put into a text are found again.** -/
theorem fromNative_toNative {text : List Char} (hb : Unbordered marker) (h : ¬marker <:+: text) :
    fromNative marker (toNative marker text) = text := by
  rw [fromNative_toNative_eq hb, fromNative_of_not_infix h]

/-- **Putting line ends into a text changes nothing about what is read back**, whatever mixture of
line feeds, markers and parts of markers it holds. A text without markers, in which the marker is put
for every line feed, is read back as it is. -/
theorem fromNative_undoes_toNative (hb : Unbordered marker) (text : List Char) :
    fromNative marker (toNative marker text) = fromNative marker text ∧
      (¬marker <:+: text →
        toNative marker text = expand marker text ∧ fromNative marker text = text) := by
  refine ⟨fromNative_toNative_eq hb text, ?_⟩
  intro h
  exact ⟨toNative_eq_expand h, fromNative_of_not_infix h⟩

/-- A bare line feed, a marker behind part of one, and part of one at the end. -/
theorem fromNative_undoes_toNative_mixed :
    Unbordered ['\r', '\n'] ∧
      toNative ['\r', '\n'] ['\n', 'a', '\r', '\r', '\n', '\r']
        = ['\r', '\n', 'a', '\r', '\r', '\n', '\r'] ∧
      fromNative ['\r', '\n'] (toNative ['\r', '\n'] ['\n', 'a', '\r', '\r', '\n', '\r'])
        = fromNative ['\r', '\n'] ['\n', 'a', '\r', '\r', '\n', '\r'] ∧
      ¬['\r', '\n'] <:+: ['\n', 'a', '\r'] ∧
      fromNative ['\r', '\n'] ['\n', 'a', '\r'] = ['\n', 'a', '\r'] := by
  have hb : Unbordered ['\r', '\n'] := by decide
  have hclear : ¬['\r', '\n'] <:+: ['\n', 'a', '\r'] := by decide
  obtain ⟨-, hback⟩ := fromNative_undoes_toNative hb ['\n', 'a', '\r']
  exact ⟨hb, by decide +kernel, (fromNative_undoes_toNative hb _).1, hclear, (hback hclear).2⟩

/-! ## Once is enough -/

/-- Where there is no line feed there is nothing to be replaced. -/
theorem toNative_of_not_mem {text : List Char} (h : '\n' ∉ text) : toNative marker text = text := by
  fun_induction toNative marker text with
  | case1 => rfl
  | case2 => rfl
  | case3 c cs hempty hstands ih =>
    obtain ⟨rest, hrest⟩ := List.isPrefixOf_iff_prefix.mp hstands
    have hlength : 0 < marker.length := List.length_pos_iff.mpr (by simpa using hempty)
    have hdrop : cs.drop (marker.length - 1) = rest := by
      rw [← List.drop_succ_cons (a := c), ← hrest, Nat.sub_add_cancel hlength, List.drop_left]
    rw [← hrest] at h ⊢
    rw [hdrop] at ih ⊢
    rw [ih (fun hmem => h (List.mem_append_right _ hmem))]
  | case4 c cs hempty hstands ih =>
    obtain ⟨hc, hcs⟩ := not_or.mp (mt List.mem_cons.mpr h)
    rw [if_neg (Ne.symm hc), ih hcs, List.singleton_append]

/-- A marker without a line feed leaves none. -/
theorem not_mem_toNative (hne : marker ≠ []) (hmem : '\n' ∉ marker) (text : List Char) :
    '\n' ∉ toNative marker text := by
  fun_induction toNative marker text with
  | case1 => exact List.not_mem_nil
  | case2 c cs hempty => exact absurd (List.isEmpty_iff.mp hempty) hne
  | case3 c cs hempty hstands ih => exact List.not_mem_append hmem ih
  | case4 c cs hempty hstands ih =>
    refine List.not_mem_append ?_ ih
    split
    · exact hmem
    · next hc => simpa using Ne.symm hc

theorem toNative_marker_append (hne : marker ≠ []) (text : List Char) :
    toNative marker (marker ++ text) = marker ++ toNative marker text := by
  cases marker with
  | nil => exact absurd rfl hne
  | cons m ms =>
    have hpre : m :: ms <+: m :: (ms ++ text) := List.prefix_append (m :: ms) text
    rw [List.cons_append, toNative, if_neg (by simp), if_pos (List.isPrefixOf_iff_prefix.mpr hpre)]
    simp

/-- **A text that has the line ends of a format is not changed again**, whatever the marker. Without
a line feed in the marker there is none left to be replaced; with one, the markers of the first time
are found again, and no others. -/
theorem toNative_toNative (marker text : List Char) :
    toNative marker (toNative marker text) = toNative marker text := by
  by_cases hmem : '\n' ∈ marker
  · have hne : marker ≠ [] := List.ne_nil_of_mem hmem
    fun_induction toNative marker text with
    | case1 => rw [toNative]
    | case2 c cs hempty => exact absurd (List.isEmpty_iff.mp hempty) hne
    | case3 c cs hempty hstands ih => rw [toNative_marker_append hne, ih]
    | case4 c cs hempty hstands ih =>
      have hpre : ¬marker <+: c :: cs := by simpa [List.isPrefixOf_iff_prefix] using hstands
      by_cases hc : c = '\n'
      · rw [if_pos hc, toNative_marker_append hne, ih]
      · rw [if_neg hc, List.singleton_append,
          toNative_of_not_isPrefix (not_prefix_toNative_of_mem hmem hc hpre), if_neg hc, ih,
          List.singleton_append]
  · by_cases hne : marker = []
    · subst hne
      cases text <;> simp [toNative]
    · exact toNative_of_not_mem (not_mem_toNative hne hmem text)

end Clipboard.LineEnd
