import Clipboard.Proofs.Text

/-!
# Words in a text

How often a word stands in a text (`occurrences`). A cut that no occurrence lies across divides the
occurrences (`occurrences_append`); such a cut is one before the word's first character, if the word
has it once, and one behind its last.
-/

namespace Clipboard.Text

/-- The number of places at which the word stands in the text. -/
def occurrences (word : List Char) : List Char → Nat
  | [] => 0
  | c :: cs => (if word <+: c :: cs then 1 else 0) + occurrences word cs

theorem occurrences_append_le (word cs ds : List Char) :
    occurrences word cs + occurrences word ds ≤ occurrences word (cs ++ ds) := by
  induction cs with
  | nil => simp [occurrences]
  | cons c cs ih =>
    rw [List.cons_append, occurrences, occurrences]
    have hstarts : word <+: c :: cs → word <+: c :: (cs ++ ds) :=
      fun h => h.trans (List.prefix_append (c :: cs) ds)
    split
    · next h =>
      rw [if_pos (hstarts h)]
      omega
    · omega

/-- A word across no cut is before it or behind it. -/
theorem occurrences_append {word cs ds : List Char}
    (h : ∀ s t, s ≠ [] → t ≠ [] → s <:+ cs → t <+: ds → word ≠ s ++ t) :
    occurrences word (cs ++ ds) = occurrences word cs + occurrences word ds := by
  induction cs with
  | nil => simp [occurrences]
  | cons c cs ih =>
    have hstarts : word <+: c :: (cs ++ ds) ↔ word <+: c :: cs := by
      constructor
      · rintro ⟨rest, heq⟩
        rcases List.append_eq_append_iff.mp (heq.trans (List.cons_append).symm) with
          ⟨more, hcs, -⟩ | ⟨more, hword, hds⟩
        · exact ⟨more, hcs.symm⟩
        · cases more with
          | nil => exact ⟨[], by rw [hword, List.append_nil, List.append_nil]⟩
          | cons d more =>
            exact absurd hword
              (h (c :: cs) (d :: more) (by simp) (by simp) List.suffix_rfl ⟨rest, hds.symm⟩)
      · exact fun hword => hword.trans (List.prefix_append (c :: cs) ds)
    rw [List.cons_append, occurrences, occurrences,
      ih (fun s t hs ht hsuffix => h s t hs ht (hsuffix.trans (List.suffix_cons c cs)))]
    simp only [hstarts]
    omega

/-- A word does not stand where one of its characters is missing. -/
theorem occurrences_eq_zero {word cs : List Char} {c : Char} (hc : c ∈ word) (h : c ∉ cs) :
    occurrences word cs = 0 := by
  induction cs with
  | nil => rfl
  | cons d cs ih =>
    have hstarts : ¬ word <+: d :: cs := fun hword => h (hword.subset hc)
    rw [occurrences, if_neg hstarts, ih (fun hmem => h (List.mem_cons_of_mem d hmem))]

theorem occurrences_append_of_first {c : Char} {word l : List Char} (h : c ∉ l) (cs : List Char) :
    occurrences (c :: word) (l ++ cs) = occurrences (c :: word) cs := by
  rw [occurrences_append, occurrences_eq_zero List.mem_cons_self h, Nat.zero_add]
  intro s t hs _ hsuffix _ heq
  cases s with
  | nil => exact hs rfl
  | cons d s =>
    obtain ⟨rfl, -⟩ := List.cons.inj heq
    exact h (hsuffix.subset List.mem_cons_self)

theorem occurrences_append_of_last {c : Char} {word r : List Char} (h : c ∉ r) (cs : List Char) :
    occurrences (word ++ [c]) (cs ++ r) = occurrences (word ++ [c]) cs := by
  rw [occurrences_append, occurrences_eq_zero (List.mem_append_right _ List.mem_cons_self) h]
  · rfl
  intro s t _ ht _ hstarts heq
  rcases List.eq_nil_or_concat t with rfl | ⟨t, d, rfl⟩
  · exact ht rfl
  · rw [List.concat_eq_append, ← List.append_assoc] at heq
    obtain ⟨-, hlast⟩ := List.append_inj' heq rfl
    obtain ⟨rfl, -⟩ := List.cons.inj hlast
    exact h (hstarts.subset (by simp))

/-- A word is not cut before its first character if it has it once. -/
theorem occurrences_append_cons {c : Char} {word : List Char} (h : c ∉ word) (cs ds : List Char) :
    occurrences (c :: word) (cs ++ c :: ds)
      = occurrences (c :: word) cs + occurrences (c :: word) (c :: ds) := by
  apply occurrences_append
  intro s t hs ht _ hstarts heq
  cases s with
  | nil => exact hs rfl
  | cons d s =>
    cases t with
    | nil => exact ht rfl
    | cons e t =>
      obtain ⟨rfl, -⟩ := List.cons_prefix_cons.mp hstarts
      apply h
      rw [(List.cons.inj heq).2]
      exact List.mem_append_right s List.mem_cons_self

/-- A word is not cut behind its last character if it has it once. -/
theorem occurrences_concat_append {c : Char} {word : List Char} (h : c ∉ word) (cs ds : List Char) :
    occurrences (word ++ [c]) (cs ++ [c] ++ ds)
      = occurrences (word ++ [c]) (cs ++ [c]) + occurrences (word ++ [c]) ds := by
  apply occurrences_append
  intro s t hs ht hsuffix _ heq
  rcases List.eq_nil_or_concat t with rfl | ⟨t, d, rfl⟩
  · exact ht rfl
  · rw [List.concat_eq_append, ← List.append_assoc] at heq
    obtain ⟨hword, -⟩ := List.append_inj' heq rfl
    have hlast : s.getLast hs = c := by
      rw [hsuffix.getLast hs, List.getLast_concat]
    apply h
    rw [hword, ← hlast]
    exact List.mem_append_left t (List.getLast_mem hs)

/-- Up to a character that is only at the end of the text, a word that ends in it stands there or
nowhere. -/
theorem occurrences_concat {c : Char} {cs : List Char} (h : c ∉ cs) (word : List Char) :
    occurrences (word ++ [c]) (cs ++ [c]) = if word <:+ cs then 1 else 0 := by
  have hstarts : ∀ {ds : List Char}, c ∉ ds → (word ++ [c] <+: ds ++ [c] ↔ word = ds) := by
    intro ds hds
    constructor
    · intro hword
      rcases List.prefix_concat_iff.mp hword with heq | hword
      · exact (List.append_inj' heq rfl).1
      · exact absurd (hword.subset (List.mem_append_right word List.mem_cons_self)) hds
    · rintro rfl
      exact List.prefix_rfl
  induction cs with
  | nil =>
    have hnil := hstarts h
    rw [List.nil_append] at hnil
    rw [List.nil_append, occurrences, occurrences]
    simp only [hnil, List.suffix_nil, Nat.add_zero]
  | cons d cs ih =>
    have hcons := hstarts h
    rw [List.cons_append] at hcons
    rw [List.cons_append, occurrences, ih (fun hmem => h (List.mem_cons_of_mem d hmem))]
    simp only [hcons, List.suffix_cons_iff]
    by_cases hwhole : word = d :: cs
    · have hshort : ¬ word <:+ cs := by
        intro hsuffix
        have hle := hsuffix.length_le
        rw [hwhole, List.length_cons] at hle
        omega
      rw [if_pos hwhole, if_neg hshort, if_pos (Or.inl hwhole)]
    · simp [hwhole]

end Clipboard.Text
