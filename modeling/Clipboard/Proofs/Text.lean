import Clipboard.Text.Blank

/-!
# White space, cuts and letter case

What `trim` drops is white space (`exists_trim`), and white space around a text makes no difference
to it (`trim_append_append`). A text is cut at the first separator exactly if the part before has
none (`splitAtFirst_eq_some_iff`), and any cut is known from how many separators are before it
(`append_cons_inj`). Letter case and white space have nothing to do with one another (`trim_lower`).
-/

namespace Clipboard.Text

/-- There is nothing but white space. -/
def IsBlank (cs : List Char) : Prop := ∀ c ∈ cs, isBlank c = true

instance (cs : List Char) : Decidable (IsBlank cs) :=
  decidable_of_iff (cs.all isBlank = true) List.all_eq_true

/-! ## White space -/

theorem isBlank_takeWhile (cs : List Char) : IsBlank (cs.takeWhile isBlank) :=
  List.all_eq_true.mp List.all_takeWhile

theorem dropWhile_isBlank_of_visible {line : List Char} (h : ∀ c ∈ line, isBlank c = false) :
    line.dropWhile isBlank = line := by
  cases line with
  | nil => rfl
  | cons c line => rw [List.dropWhile_cons, if_neg (by simp [h c List.mem_cons_self])]

/-- Where there is no white space there is none to drop. -/
theorem trim_of_visible {line : List Char} (h : ∀ c ∈ line, isBlank c = false) :
    trim line = line := by
  have hreverse : ∀ c ∈ line.reverse, isBlank c = false :=
    fun c hc => h c (List.mem_reverse.mp hc)
  rw [trim, trimLeft, dropWhile_isBlank_of_visible h, trimRight,
    dropWhile_isBlank_of_visible hreverse, List.reverse_reverse]

/-- From the first to the last character that is no white space nothing is dropped. -/
theorem trim_append_ends {first last : Char} (hfirst : isBlank first = false)
    (hlast : isBlank last = false) (l cs : List Char) :
    trim (l ++ first :: (cs ++ [last])) = trimLeft l ++ first :: (cs ++ [last]) := by
  have hleft : trimLeft (l ++ first :: (cs ++ [last])) = trimLeft l ++ first :: (cs ++ [last]) := by
    unfold trimLeft
    rw [List.dropWhile_append]
    split
    · next hnil => simp [List.isEmpty_iff.mp hnil, hfirst]
    · rfl
  rw [trim, hleft, trimRight]
  simp [hlast]

/-- Between two characters that are no white space nothing is dropped. -/
theorem trim_of_ends {first last : Char} (hfirst : isBlank first = false)
    (hlast : isBlank last = false) (cs : List Char) :
    trim (first :: (cs ++ [last])) = first :: (cs ++ [last]) :=
  trim_append_ends hfirst hlast [] cs

theorem trimRight_append {r : List Char} (hr : IsBlank r) (cs : List Char) :
    trimRight (cs ++ r) = trimRight cs := by
  have hreverse : ∀ c ∈ r.reverse, isBlank c = true := fun c hc => hr c (List.mem_reverse.mp hc)
  unfold trimRight
  rw [List.reverse_append, List.dropWhile_append_of_pos hreverse]

/-- White space around a text makes no difference. -/
theorem trim_append_append {l r : List Char} (hl : IsBlank l) (hr : IsBlank r) (cs : List Char) :
    trim (l ++ cs ++ r) = trim cs := by
  unfold trim trimLeft
  rw [List.append_assoc, List.dropWhile_append_of_pos hl, List.dropWhile_append]
  split
  · next hblank =>
    have hrest : (r ++ []).dropWhile isBlank = [] := List.dropWhile_append_of_pos hr
    rw [List.append_nil] at hrest
    rw [List.isEmpty_iff.mp hblank, hrest]
  · exact trimRight_append hr _

theorem trim_of_isBlank {cs : List Char} (h : IsBlank cs) : trim cs = [] := by
  have hnone : IsBlank [] := by simp [IsBlank]
  have htrim := trim_append_append h hnone []
  rwa [List.append_nil, List.append_nil] at htrim

theorem exists_trimRight (cs : List Char) : ∃ r, IsBlank r ∧ cs = trimRight cs ++ r := by
  refine ⟨(cs.reverse.takeWhile isBlank).reverse, ?_, ?_⟩
  · intro c hc
    exact isBlank_takeWhile _ c (List.mem_reverse.mp hc)
  · unfold trimRight
    rw [← List.reverse_append, List.takeWhile_append_dropWhile, List.reverse_reverse]

/-- What is dropped is white space at the ends. -/
theorem exists_trim (cs : List Char) : ∃ l r, IsBlank l ∧ IsBlank r ∧ cs = l ++ trim cs ++ r := by
  obtain ⟨r, hr, heq⟩ := exists_trimRight (trimLeft cs)
  refine ⟨cs.takeWhile isBlank, r, isBlank_takeWhile cs, hr, ?_⟩
  rw [List.append_assoc, trim, ← heq, trimLeft, List.takeWhile_append_dropWhile]

theorem trim_trim (cs : List Char) : trim (trim cs) = trim cs := by
  obtain ⟨l, r, hl, hr, heq⟩ := exists_trim cs
  have htrim := trim_append_append hl hr (trim cs)
  rw [← heq] at htrim
  exact htrim.symm

theorem isBlank_of_trim_eq_nil {cs : List Char} (h : trim cs = []) : IsBlank cs := by
  obtain ⟨l, r, hl, hr, heq⟩ := exists_trim cs
  rw [h, List.append_nil] at heq
  rw [heq]
  intro c hc
  rcases List.mem_append.mp hc with hc | hc
  · exact hl c hc
  · exact hr c hc

/-- What is no white space is as often in a text without the white space around it. -/
theorem count_trim {c : Char} (h : isBlank c = false) (cs : List Char) :
    (trim cs).count c = cs.count c := by
  have hnone : ∀ {l : List Char}, IsBlank l → l.count c = 0 := by
    intro l hl
    rw [List.count_eq_zero]
    intro hmem
    rw [hl c hmem] at h
    cases h
  obtain ⟨l, r, hl, hr, heq⟩ := exists_trim cs
  rw [heq, List.count_append, List.count_append, hnone hl, hnone hr, ← heq]
  omega

/-! ## Cuts -/

theorem splitAtFirst_append {sep : Char} {front : List Char} (h : sep ∉ front) (rest : List Char) :
    splitAtFirst sep (front ++ sep :: rest) = some (front, rest) := by
  have hfront : ∀ c ∈ front, (c != sep) = true := by
    intro c hc
    rw [bne_iff_ne]
    rintro rfl
    exact h hc
  unfold splitAtFirst
  rw [List.dropWhile_append_of_pos hfront, List.takeWhile_append_of_pos hfront]
  simp

/-- A text is cut at the first separator. -/
theorem splitAtFirst_eq_some_iff {sep : Char} {cs front rest : List Char} :
    splitAtFirst sep cs = some (front, rest) ↔ cs = front ++ sep :: rest ∧ sep ∉ front := by
  constructor
  · intro h
    unfold splitAtFirst at h
    split at h
    · cases h
    · next c after hdrop =>
      cases h
      have hsep : c = sep := by
        have hhead := List.head?_dropWhile_not (· != sep) cs
        rw [hdrop] at hhead
        simpa using hhead
      refine ⟨?_, ?_⟩
      · rw [← hsep, ← hdrop, hsep, List.takeWhile_append_dropWhile]
      · intro hmem
        have htake := List.all_eq_true.mp List.all_takeWhile sep hmem
        simp at htake
  · rintro ⟨rfl, h⟩
    exact splitAtFirst_append h rest

/-- A cut is determined by how many separators are before it. -/
theorem append_cons_inj {sep : Char} {front front' rest rest' : List Char}
    (hcount : front.count sep = front'.count sep)
    (heq : front ++ sep :: rest = front' ++ sep :: rest') : front = front' ∧ rest = rest' := by
  rcases List.append_eq_append_iff.mp heq with ⟨more, hfront, hrest⟩ | ⟨more, hfront, hrest⟩
  · cases more with
    | nil => exact ⟨by simpa using hfront.symm, by simpa using hrest⟩
    | cons c more =>
      obtain ⟨rfl, -⟩ := List.cons.inj hrest
      rw [hfront, List.count_append, List.count_cons_self] at hcount
      omega
  · cases more with
    | nil => exact ⟨by simpa using hfront, by simpa using hrest.symm⟩
    | cons c more =>
      obtain ⟨rfl, -⟩ := List.cons.inj hrest
      rw [hfront, List.count_append, List.count_cons_self] at hcount
      omega

/-! ## Letter case -/

/-- Only the upper-case ASCII letters are changed by going to lower case. -/
theorem toLower_eq_self_or (c : Char) : c.toLower = c ∨ c.toNat ∈ List.range' 65 26 := by
  unfold Char.toLower
  split
  · next h =>
    have hfirst : (65 : UInt32).toNat ≤ c.toNat := UInt32.le_iff_toNat_le.mp h.1
    have hlast : c.toNat ≤ (90 : UInt32).toNat := UInt32.le_iff_toNat_le.mp h.2
    rw [List.mem_range'_1]
    exact Or.inr ⟨hfirst, Nat.lt_succ_of_le hlast⟩
  · exact Or.inl rfl

/-- What does not tell the letters of either case apart does not depend on the case. -/
theorem apply_toLower {α : Type} {p : Char → α}
    (h : ∀ n ∈ List.range' 65 26, p (Char.ofNat n).toLower = p (Char.ofNat n)) (c : Char) :
    p c.toLower = p c := by
  rcases toLower_eq_self_or c with heq | hmem
  · rw [heq]
  · rw [← Char.ofNat_toNat c]
    exact h _ hmem

theorem isBlank_toLower (c : Char) : isBlank c.toLower = isBlank c :=
  apply_toLower (by decide) c

theorem toLower_toLower (c : Char) : c.toLower.toLower = c.toLower :=
  apply_toLower (p := Char.toLower) (by decide) c

theorem lower_append (as bs : List Char) : lower (as ++ bs) = lower as ++ lower bs :=
  List.map_append

theorem lower_lower (cs : List Char) : lower (lower cs) = lower cs := by
  unfold lower
  rw [List.map_map]
  exact List.map_congr_left (fun c _ => toLower_toLower c)

/-- What is no letter is as often in a text in lower case. -/
theorem count_lower {c : Char}
    (h : ∀ n ∈ List.range' 65 26, ((Char.ofNat n).toLower == c) = (Char.ofNat n == c))
    (cs : List Char) : (lower cs).count c = cs.count c := by
  have hcomp : (· == c) ∘ Char.toLower = (· == c) := funext (apply_toLower (p := (· == c)) h)
  unfold lower
  rw [List.count_eq_countP, List.countP_map, hcomp, List.count_eq_countP]

theorem IsBlank.lower {cs : List Char} (h : IsBlank cs) : IsBlank (lower cs) := by
  intro c hc
  obtain ⟨d, hd, rfl⟩ := List.mem_map.mp hc
  rw [isBlank_toLower]
  exact h d hd

/-- White space is dropped in either case. -/
theorem trim_lower (cs : List Char) : trim (lower cs) = lower (trim cs) := by
  have hcomp : isBlank ∘ Char.toLower = isBlank := funext isBlank_toLower
  unfold trim trimLeft trimRight lower
  rw [List.dropWhile_map, hcomp, ← List.map_reverse, List.dropWhile_map, hcomp, ← List.map_reverse]

end Clipboard.Text
